/-
What a notification is recognised by.

A notification's ids are looked up in the spawn registry: its tool-use
id names a row, its task id may be one a row has. Nothing but closing
the session takes either away (`retains_run`), so ids that matched once
match from then on. A delta's lines put there what they name
(`isForkSpawn_applyDelta`): a spawn they show, and the first task id
they report for a spawn that has none.
-/
import Autofork.Proofs.Batches
import Autofork.Proofs.Slices
import Autofork.Proofs.Spawns
import Autofork.Proofs.Steps

namespace Autofork

open Lib

namespace Store

variable {a u : String} {s s' s'' : Store}

/-- A notification's ids match when a row they name has them. -/
theorem isForkSpawn_iff {toolUseId taskId : Option String} :
    s.isForkSpawn a toolUseId taskId = true ↔ ∃ u r,
      s.spawns.find? (a, u) = some r
        ∧ (toolUseId = some u ∨ ∃ i, taskId = some i ∧ r.taskId = some i) := by
  simp only [isForkSpawn, List.any_eq_true, matchesIds, Bool.and_eq_true,
    Bool.or_eq_true, beq_iff_eq, Option.any_eq_true]
  constructor
  · rintro ⟨r, hr, rfl, hids⟩
    refine ⟨r.toolUseId, r, s.spawns.find?_eq_some_iff.2 ⟨hr, rfl⟩, ?_⟩
    refine hids.imp_left ?_
    rintro ⟨u, rfl, rfl⟩
    rfl
  · rintro ⟨u, r, hrow, hids⟩
    obtain ⟨hr, hkey⟩ := s.spawns.find?_eq_some_iff.1 hrow
    obtain ⟨rfl, rfl⟩ := Prod.mk.inj hkey
    exact ⟨r, hr, rfl, hids.imp_left fun h => ⟨_, h, rfl⟩⟩

/-- The spawns of session `a` keep their rows, and their task ids. -/
def Retains (a : String) (s s' : Store) : Prop :=
  ∀ u r, s.spawns.find? (a, u) = some r →
    ∃ r', s'.spawns.find? (a, u) = some r'
      ∧ ∀ i, r.taskId = some i → r'.taskId = some i

theorem Retains.of_find? (h : ∀ u, s.spawns.find? (a, u)
    = s'.spawns.find? (a, u)) : s.Retains a s' :=
  fun u r hr => ⟨r, (h u).symm.trans hr, fun _ => id⟩

theorem Retains.refl (a : String) (s : Store) : s.Retains a s :=
  .of_find? fun _ => rfl

theorem Retains.trans (h : s.Retains a s') (h' : s'.Retains a s'') :
    s.Retains a s'' := by
  intro u r hr
  obtain ⟨r', hr', hid⟩ := h u r hr
  obtain ⟨r'', hr'', hid'⟩ := h' u r' hr'
  exact ⟨r'', hr'', fun i hi => hid' i (hid i hi)⟩

/-- What matched goes on matching. -/
theorem Retains.isForkSpawn (h : s.Retains a s')
    {toolUseId taskId : Option String}
    (hmatch : s.isForkSpawn a toolUseId taskId = true) :
    s'.isForkSpawn a toolUseId taskId = true := by
  obtain ⟨u, r, hr, hids⟩ := isForkSpawn_iff.1 hmatch
  obtain ⟨r', hr', hid⟩ := h u r hr
  refine isForkSpawn_iff.2 ⟨u, r', hr', hids.imp_right ?_⟩
  rintro ⟨i, hi, htask⟩
  exact ⟨i, hi, hid i htask⟩

theorem retains_markSpawnTerminal (s : Store) (b : String)
    (toolUseId taskId : Option String) (status : String) (t : Int) :
    s.Retains a (s.markSpawnTerminal b toolUseId taskId status t).1 := by
  unfold markSpawnTerminal
  split
  · intro u r hr
    have hrow := @Table.find?_updateWhere _ _ SpawnRec.key _ s.spawns
      (fun r => r.status == "spawned" && matchesIds b toolUseId taskId r)
      (fun r => { r with status, terminalAt := some t }) (fun _ => rfl) (a, u)
    rw [hr] at hrow
    refine ⟨_, hrow, fun i hi => ?_⟩
    show SpawnRec.taskId (if _ then _ else _) = some i
    split <;> exact hi
  · exact .refl a s

end Store

-- ================================================================ a delta

/-- A delta's lines name a notification's ids: they show the spawn, or
are the first to report the task id of one. -/
def Delta.Names (delta : Delta) (s : Store) (a : String)
    (toolUseId taskId : Option String) : Prop :=
  ∃ u, (toolUseId = some u ∧ u ∈ delta.spawns.map Prod.fst)
    ∨ (taskId ≠ none ∧ delta.taskIds.lookup u = taskId
      ∧ match s.spawns.find? (a, u) with
        | some r => r.taskId = none
        | none => u ∈ delta.spawns.map Prod.fst)

section delta

variable {a u : String}

/-- A delta's own items, in the order it is recorded in. -/
private def ownItems (delta : Delta) : List Item :=
  delta.spawns.map (fun p => .spawn p.1 p.2)
    ++ (delta.taskIds.map (fun p => .taskId p.1 p.2)
      ++ delta.notifications.map .notification)

private theorem reports_ownItems (delta : Delta) :
    Reports delta (ownItems delta) := by
  unfold Reports ownItems
  simp [List.filterMap_append, List.filterMap_map, Function.comp_def,
    Item.asSpawn, Item.asTaskId, Item.asNotification]

private theorem findSome?_taskIds (delta : Delta) (t : Int) :
    ((ownItems delta).map (·, t)).findSome? (taskIdFor u)
      = delta.taskIds.lookup u := by
  have hspawns : ∀ l : List (String × Option String),
      (l.map fun p => (Item.spawn p.1 p.2, t)).findSome? (taskIdFor u)
        = none := by
    intro l
    refine List.findSome?_eq_none_iff.2 fun x hx => ?_
    obtain ⟨p, -, rfl⟩ := List.mem_map.1 hx
    rfl
  have hnotes : ∀ l : List TaskNotification,
      (l.map fun n => (Item.notification n, t)).findSome? (taskIdFor u)
        = none := by
    intro l
    refine List.findSome?_eq_none_iff.2 fun x hx => ?_
    obtain ⟨n, -, rfl⟩ := List.mem_map.1 hx
    rfl
  have htasks : ∀ l : List (String × String),
      (l.map fun p => (Item.taskId p.1 p.2, t)).findSome? (taskIdFor u)
        = l.lookup u := by
    intro l
    induction l with
    | nil => rfl
    | cons p l ih =>
        rw [List.map_cons, List.findSome?_cons, ih, List.lookup_cons, taskIdFor]
        by_cases hp : p.1 = u
        · simp [hp]
        · simp [hp, beq_eq_false_iff_ne.2 (Ne.symm hp)]
  unfold ownItems
  simp only [List.map_append, List.map_map, Function.comp_def,
    List.findSome?_append, hspawns, htasks, hnotes, Option.none_or,
    Option.or_none]

/-- A delta keeps a spawn's row, and gives it the first task id it
reports for one that has none. -/
theorem find?_applyDelta_old {s : Store} {r : SpawnRec}
    (h : s.spawns.find? (a, u) = some r) (delta : Delta) (t : Int) :
    ∃ r', (applyDelta s a delta t).spawns.find? (a, u) = some r'
      ∧ r'.taskId = r.taskId.or (delta.taskIds.lookup u) := by
  have hrow := @find?_applyDelta a u s
    ⟨ownItems delta, t, delta.newOffset, delta.promptTokens, delta.model⟩
  rw [Chunk.delta_of_reports (reports_ownItems delta), h, settled,
    Option.some_or, Option.map_some] at hrow
  refine ⟨_, hrow, ?_⟩
  rw [taskId_finish]
  exact congrArg r.taskId.or (findSome?_taskIds delta t)

/-- A delta writes a row for a spawn it shows, with the first task id it
reports for it. -/
theorem find?_applyDelta_new {s : Store}
    (h : s.spawns.find? (a, u) = none) {delta : Delta} (t : Int)
    (hu : u ∈ delta.spawns.map Prod.fst) :
    ∃ r', (applyDelta s a delta t).spawns.find? (a, u) = some r'
      ∧ r'.taskId = delta.taskIds.lookup u := by
  have hrow := @find?_applyDelta a u s
    ⟨ownItems delta, t, delta.newOffset, delta.promptTokens, delta.model⟩
  rw [Chunk.delta_of_reports (reports_ownItems delta), h, settled,
    Option.none_or] at hrow
  have hsome : (((ownItems delta).map (·, t)).findSome?
      (spawnRow a u)).isSome = true := by
    obtain ⟨p, hp, rfl⟩ := List.mem_map.1 hu
    rw [List.findSome?_isSome_iff]
    refine ⟨(.spawn p.1 p.2, t), ?_, by simp [spawnRow]⟩
    refine List.mem_map_of_mem (List.mem_append_left _ ?_)
    exact List.mem_map_of_mem (f := fun p => Item.spawn p.1 p.2) hp
  obtain ⟨r, hr⟩ := Option.isSome_iff_exists.1 hsome
  obtain ⟨x, -, hx⟩ := List.exists_of_findSome?_eq_some hr
  have hnew := congrArg (Option.map (finish u ((ownItems delta).map (·, t)))) hr
  refine ⟨_, hrow.trans hnew, ?_⟩
  rw [taskId_finish, findSome?_taskIds, (spawnRow_eq_some hx).2.1,
    Option.none_or]

/-- A delta's lines register what they name. -/
theorem isForkSpawn_applyDelta {s : Store} {delta : Delta}
    {toolUseId taskId : Option String}
    (h : delta.Names s a toolUseId taskId) (t : Int) :
    (applyDelta s a delta t).isForkSpawn a toolUseId taskId = true := by
  obtain ⟨u, ⟨hu, hmem⟩ | ⟨hsome, hlookup, hrow⟩⟩ := h
  · cases hold : s.spawns.find? (a, u) with
    | some r =>
        obtain ⟨r', hr', -⟩ := find?_applyDelta_old hold delta t
        exact Store.isForkSpawn_iff.2 ⟨u, r', hr', .inl hu⟩
    | none =>
        obtain ⟨r', hr', -⟩ := find?_applyDelta_new hold t hmem
        exact Store.isForkSpawn_iff.2 ⟨u, r', hr', .inl hu⟩
  · obtain ⟨i, hi⟩ := Option.ne_none_iff_exists'.1 hsome
    cases hold : s.spawns.find? (a, u) with
    | some r =>
        simp only [hold] at hrow
        obtain ⟨r', hr', hid⟩ := find?_applyDelta_old hold delta t
        rw [hrow, Option.none_or, hlookup] at hid
        exact Store.isForkSpawn_iff.2 ⟨u, r', hr', .inr ⟨i, hi, hid.trans hi⟩⟩
    | none =>
        simp only [hold] at hrow
        obtain ⟨r', hr', hid⟩ := find?_applyDelta_new hold t hrow
        rw [hlookup] at hid
        exact Store.isForkSpawn_iff.2 ⟨u, r', hr', .inr ⟨i, hi, hid.trans hi⟩⟩

theorem retains_applyDelta (s : Store) (delta : Delta) (t : Int) :
    s.Retains a (applyDelta s a delta t) := by
  intro u r hr
  obtain ⟨r', hr', hid⟩ := find?_applyDelta_old hr delta t
  refine ⟨r', hr', fun i hi => ?_⟩
  rw [hid, hi, Option.some_or]

end delta

-- ============================================================ one section

/-- A section that does not close session `a` keeps its spawns. -/
theorem retains_run {a : String} {k : Nat} {now : Int} {d : Daemon}
    {x : Section} (hopen : Obs.closed a ∉ (x.run k now d).2.2) :
    d.store.Retains a (x.run k now d).1 := by
  cases hcloses : x.closes with
  | true =>
      obtain ⟨ids, hs, hobs⟩ := closes_run k now d hcloses
      rw [hobs] at hopen
      intro u r hr
      refine ⟨r, ?_, fun _ => id⟩
      obtain ⟨hmem, hkey⟩ := d.store.spawns.find?_eq_some_iff.1 hr
      rw [hs, Table.find?_eq_some_iff, mem_spawns_closeSessions]
      refine ⟨⟨hmem, ?_⟩, hkey⟩
      rw [(Prod.mk.inj hkey).1]
      simpa using hopen
  | false =>
      cases x with
      | classify ev t =>
          simp only [Section.run, classifyNotification]
          split
          · exact d.store.retains_markSpawnTerminal _ _ _ _ t
          · exact .refl a _
      | ingest b delta t =>
          by_cases hb : b = a
          · subst hb
            exact retains_applyDelta d.store delta t
          · have hsame : SameSlice a d.store
                (Section.run k now d (.ingest b delta t)).1 := slice_run hb rfl
            refine .of_find? fun u => ?_
            have hselect : ∀ r, SpawnRec.key r = (a, u) →
                (r.sessionId == a) = true := by
              intro r hr
              exact beq_iff_eq.2 (congrArg Prod.fst hr)
            rw [Table.find?_select _ hselect, Table.find?_select _ hselect,
              hsame.spawns]
      | close sessionId | closeIfOpen sessionId => cases hcloses
      | prune t => cases hcloses
      | _ =>
          refine .of_find? fun u => ?_
          rw [spawns_same (by simp) (by simp) hcloses]

/-- A notification is matched against the registry. -/
theorem classifyNotification_matched (s : Store) (ev : Event) (t : Int) :
    (classifyNotification s ev t).2
      = s.isForkSpawn ev.sessionId ev.notifToolUseId ev.notifTaskId := by
  simp only [classifyNotification, Store.markSpawnTerminal]
  split
  · split
    next h => exact h.symm
    next h => exact (Bool.eq_false_iff.2 h).symm
  · rfl

namespace World

/-- What matched goes on matching over a run that does not close the
session. -/
theorem isForkSpawn_step {a : String} {toolUseId taskId : Option String}
    (w : World) (act : Act) (hopen : w.closes a act = false)
    (h : w.daemon.store.isForkSpawn a toolUseId taskId = true) :
    (w.step act).daemon.store.isForkSpawn a toolUseId taskId = true := by
  refine w.store_invariant (C := fun w act => w.closes a act = false)
    (Q := fun s _ => s.isForkSpawn a toolUseId taskId = true)
    (fun _ _ _ _ h => h) (fun w k tick x hC hab h => ?_) act hopen h
  refine (retains_run fun hclosed => ?_).isForkSpawn h
  simp [closes, hab, hclosed] at hC

end World

end Autofork
