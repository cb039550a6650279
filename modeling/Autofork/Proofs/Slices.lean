/-
The slice of one session: its row, and the rows filed under it in the
other tables.

Every section but the pruning one writes rows of one session. It leaves
the slices of all others as they are (`slice_run`).
-/
import Autofork.Lib.Slice
import Autofork.Proofs.Sections

namespace Autofork

open Lib

/-- A held row without the number of its issuance, which is no column. -/
def PendingRec.unnumbered (r : PendingRec) : PendingRec := { r with issue := 0 }

/-- A run without its autoincrement id. -/
def RunRec.unnumbered (r : RunRec) : RunRec := { r with id := 0 }

/-- The key of a queued fork decides whose it is. -/
theorem decides_roster {a : String} : Table.Decides RosterEntry.key
    fun r => r.sessionId == a := by
  intro x y h
  show (x.sessionId == a) = (y.sessionId == a)
  rw [show x.sessionId = y.sessionId from congrArg Prod.fst h]

theorem decides_fires {a : String} : Table.Decides FireRec.key
    fun r => r.sessionId == a := by
  intro x y h
  show (x.sessionId == a) = (y.sessionId == a)
  rw [show x.sessionId = y.sessionId from congrArg Prod.fst h]

theorem decides_spawn {a : String} : Table.Decides SpawnRec.key
    fun r => r.sessionId == a := by
  intro x y h
  show (x.sessionId == a) = (y.sessionId == a)
  rw [show x.sessionId = y.sessionId from congrArg Prod.fst h]

theorem decides_pending {a : String} : Table.Decides PendingRec.key
    fun r => r.sessionId == a := by
  intro x y h
  show (x.sessionId == a) = (y.sessionId == a)
  rw [show x.sessionId = y.sessionId from congrArg Prod.fst h]

/-- Two stores agree on session `a`. -/
structure SameSlice (a : String) (s s' : Store) : Prop where
  session : s.sessions.find? a = s'.sessions.find? a
  roster : s.roster.select (fun r => r.sessionId == a)
    = s'.roster.select fun r => r.sessionId == a
  fires : s.fires.select (fun r => r.sessionId == a)
    = s'.fires.select fun r => r.sessionId == a
  spawns : s.spawns.select (fun r => r.sessionId == a)
    = s'.spawns.select fun r => r.sessionId == a
  pending : (s.pending.select fun r => r.sessionId == a).map
      PendingRec.unnumbered
    = (s'.pending.select fun r => r.sessionId == a).map PendingRec.unnumbered
  runs : (s.runs.filter fun r => r.sessionId == a).map RunRec.unnumbered
    = (s'.runs.filter fun r => r.sessionId == a).map RunRec.unnumbered

theorem SameSlice.refl (a : String) (s : Store) : SameSlice a s s :=
  ⟨rfl, rfl, rfl, rfl, rfl, rfl⟩

theorem SameSlice.symm {a : String} {s s' : Store} (h : SameSlice a s s') :
    SameSlice a s' s :=
  ⟨h.session.symm, h.roster.symm, h.fires.symm, h.spawns.symm, h.pending.symm,
    h.runs.symm⟩

theorem SameSlice.trans {a : String} {s s' s'' : Store}
    (h : SameSlice a s s') (h' : SameSlice a s' s'') : SameSlice a s s'' :=
  ⟨h.session.trans h'.session, h.roster.trans h'.roster,
    h.fires.trans h'.fires, h.spawns.trans h'.spawns,
    h.pending.trans h'.pending, h.runs.trans h'.runs⟩

/-- Steps that each keep the slice keep it together. -/
theorem SameSlice.foldl {a : String} {β : Type} {f : Store → β → Store}
    (hf : ∀ s x, SameSlice a s (f s x)) (l : List β) (s : Store) :
    SameSlice a s (l.foldl f s) := by
  induction l generalizing s with
  | nil => exact .refl a s
  | cons x l ih => exact (hf s x).trans (ih _)

-- ===================================================== writes elsewhere

section other

variable {a b : String} (hne : b ≠ a)

include hne

/-- A row of session `a` is none of `b`'s. -/
private theorem not_filed {ρ : Type} {f : ρ → String} (r : ρ)
    (h : (f r == a) = true) : (f r == b) = false := by
  rw [beq_iff_eq] at h
  rw [h, beq_eq_false_iff_ne]
  exact hne.symm

/-- Another session's row does not matter. -/
theorem sameSlice_updateSession (s : Store) {f : SessionRec → SessionRec}
    {hf : ∀ r, (f r).sessionId = r.sessionId} :
    SameSlice a s (s.updateSession b f hf) := by
  refine ⟨?_, rfl, rfl, rfl, rfl, rfl⟩
  -- only the row of `a` is compared, and it is another
  rw [Store.updateSession, Table.find?_updateWhere]
  cases h : s.sessions.find? a with
  | none => rfl
  | some r =>
      obtain ⟨-, hr⟩ := s.sessions.find?_eq_some_iff.1 h
      rw [Option.map_some, if_neg (by simpa [hr] using hne.symm)]

/-- A session is opened beside this one. -/
theorem sameSlice_upsertSession (s : Store) {ev : Event} {t : Int}
    (hev : ev.sessionId = b) : SameSlice a s (s.upsertSession ev t) := by
  refine ⟨?_, rfl, rfl, rfl, rfl, rfl⟩
  rw [Store.upsertSession, Table.find?_insertOrUpdate,
    if_neg (by simpa [hev] using hne)]

theorem sameSlice_clearPendingDeps (s : Store) :
    SameSlice a s (s.clearPendingDeps b) := by
  refine ⟨rfl, rfl, rfl, rfl, ?_, rfl⟩
  rw [Store.clearPendingDeps,
    Table.select_deleteWhere_other _ fun r hr => not_filed hne r hr]

/-- Closing a session deletes rows of its own only. -/
theorem sameSlice_closeSession (s : Store) :
    SameSlice a s (s.closeSession b) := by
  have hsession : SameSlice a s (s.updateSession b
      (fun r => { r with status := .closed }) fun _ => rfl) := by
    apply sameSlice_updateSession hne
  -- the row is marked, and the rows of four tables go
  refine ⟨hsession.session, ?_, ?_, ?_, ?_, rfl⟩
  · exact (Table.select_deleteWhere_other _ fun r hr => not_filed hne r hr).symm
  · exact (Table.select_deleteWhere_other _ fun r hr => not_filed hne r hr).symm
  · exact (Table.select_deleteWhere_other _ fun r hr => not_filed hne r hr).symm
  · rw [Store.closeSession,
      Table.select_deleteWhere_other _ fun r hr => not_filed hne r hr]

theorem sameSlice_recordSpawn (s : Store) (toolUseId : String)
    (forkName : Option String) (t : Int) :
    SameSlice a s (s.recordSpawn b toolUseId forkName t) := by
  refine ⟨rfl, rfl, rfl, ?_, rfl, rfl⟩
  rw [Store.recordSpawn, Table.select_insertOrIgnore_other]
  simpa using hne

theorem sameSlice_setSpawnTaskId (s : Store) (toolUseId taskId : String) :
    SameSlice a s (s.setSpawnTaskId b toolUseId taskId) := by
  refine ⟨rfl, rfl, rfl, ?_, rfl, rfl⟩
  symm
  apply Table.select_updateWhere_other _ _ decides_spawn
  · intro r hr
    rw [not_filed hne r hr, Bool.false_and]
  · exact fun _ => rfl

/-- A completion is marked in the session it is reported in. -/
theorem sameSlice_markSpawnTerminal (s : Store)
    (toolUseId taskId : Option String) (status : String) (t : Int) :
    SameSlice a s (s.markSpawnTerminal b toolUseId taskId status t).1 := by
  unfold Store.markSpawnTerminal
  split
  · refine ⟨rfl, rfl, rfl, ?_, rfl, rfl⟩
    symm
    apply Table.select_updateWhere_other _ _ decides_spawn
    · intro r hr
      rw [Store.matchesIds, not_filed hne r hr, Bool.false_and, Bool.and_false]
    · exact fun _ => rfl
  · exact .refl a s

/-- What one session's transcript says is recorded under it. -/
theorem sameSlice_applyDelta (s : Store) (delta : Delta) (t : Int) :
    SameSlice a s (applyDelta s b delta t) := by
  have hspawns := SameSlice.foldl (a := a)
    (f := fun s (p : String × Option String) => s.recordSpawn b p.1 p.2 t)
    (fun s p => sameSlice_recordSpawn hne s p.1 p.2 t) delta.spawns s
  have htasks := fun s => SameSlice.foldl (a := a)
    (f := fun s (p : String × String) => s.setSpawnTaskId b p.1 p.2)
    (fun s p => sameSlice_setSpawnTaskId hne s p.1 p.2) delta.taskIds s
  have hnotes := fun s => SameSlice.foldl (a := a)
    (f := ingestNotification b t) (fun s n => by
      unfold ingestNotification
      split
      · exact .refl a s
      · exact sameSlice_markSpawnTerminal hne s _ _ _ t) delta.notifications s
  exact hspawns.trans ((htasks _).trans ((hnotes _).trans
    (sameSlice_updateSession hne _)))

/-- Forks are queued on one session's roster. -/
theorem sameSlice_queueForks (s : Store) (entries : List ForkEntry)
    (t : Int) : SameSlice a s (s.queueForks b entries t) := by
  unfold Store.queueForks
  apply SameSlice.foldl
  intro s e
  refine ⟨rfl, ?_, rfl, rfl, rfl, rfl⟩
  rw [Store.queueFork, Table.select_insertOrIgnore_other]
  simpa using hne

/-- What one selected fork's stamp writes is filed under its session. -/
theorem sameSlice_stampFork (s : Store) {session : SessionRow} {t : Int}
    {issue : Nat} (sp : SelectedFork × List String)
    (hsession : session.sessionId = b) :
    SameSlice a s (s.stampFork session t issue sp) := by
  have hroster : SameSlice a s (s.touchForkRan b sp.1.name t) := by
    refine ⟨rfl, ?_, rfl, rfl, rfl, rfl⟩
    symm
    apply Table.select_updateWhere_other _ _ decides_roster
    · intro r hr
      rw [not_filed hne r hr, Bool.false_and]
    · exact fun _ => rfl
  have hruns : ∀ s tags, SameSlice a s
      (s.recordIssuedRun b sp.1.name sp.1.trigger tags t) := by
    intro s tags
    refine ⟨rfl, rfl, rfl, rfl, rfl, ?_⟩
    rw [Store.recordIssuedRun, List.filter_append]
    simp [hne]
  have hfires : ∀ s key, SameSlice a s
      (s.tryLatchFire b sp.1.name key t).1 := by
    intro s key
    refine ⟨rfl, rfl, ?_, rfl, rfl, rfl⟩
    rw [Store.tryLatchFire, Table.select_insertOrIgnore_other]
    simpa using hne
  have hpending : ∀ s, SameSlice a s (s.insertPendingDep b sp.1.name
      sp.1.path sp.1.trigger sp.1.overlap sp.2 t issue) := by
    intro s
    refine ⟨rfl, rfl, rfl, rfl, ?_, rfl⟩
    rw [Store.insertPendingDep,
      Table.select_insertOrReplace_other _ decides_pending]
    simpa using hne
  subst hsession
  have hissued := hroster.trans (hruns (s.touchForkRan session.sessionId
    sp.1.name t) (if sp.1.tags.isEmpty then none else some (join "," sp.1.tags)))
  simp only [Store.stampFork]
  cases sp.1.latchKey with
  | none =>
      cases sp.2.isEmpty with
      | true => exact hissued
      | false => exact hissued.trans (hpending _)
  | some key =>
      cases sp.2.isEmpty with
      | true => exact hissued.trans (hfires _ key)
      | false => exact (hissued.trans (hfires _ key)).trans (hpending _)

/-- A release deletes dependents of its session. -/
theorem sameSlice_deleteReleased (s : Store) (released : List PendingDep) :
    SameSlice a s (s.deleteReleased b released) := by
  unfold Store.deleteReleased
  apply SameSlice.foldl
  intro s dep
  refine ⟨rfl, rfl, rfl, rfl, ?_, rfl⟩
  rw [Store.deletePendingDep, Table.select_deleteWhere_other]
  intro r hr
  rw [not_filed hne r hr, Bool.false_and]

end other

/-- The session whose rows a section writes. -/
def Section.about : Section → Option String
  | .start ev _ | .classify ev _ | .prompt ev _ _ | .stop ev _ =>
      some ev.sessionId
  | .ingest sessionId _ _ | .queue sessionId _ | .close sessionId
  | .closeIfOpen sessionId => some sessionId
  | .stamp session _ _ | .release session _ => some session.sessionId
  | .prune _ => none

/-- A section leaves the slices of all sessions but its own alone. -/
theorem slice_run {a b : String} (hne : b ≠ a) {k : Nat} {now : Int}
    {d : Daemon} {x : Section} (hx : x.about = some b) :
    SameSlice a d.store (x.run k now d).1 := by
  cases x with
  | prune t => cases hx
  | start ev t => exact sameSlice_upsertSession hne d.store (Option.some.inj hx)
  | classify ev t =>
      obtain rfl := Option.some.inj hx
      simp only [Section.run, classifyNotification]
      split
      · exact sameSlice_markSpawnTerminal hne d.store _ _ _ t
      · exact .refl a _
  | prompt ev waking t =>
      obtain rfl := Option.some.inj hx
      have hupsert : SameSlice a d.store ((d.store.upsertSession ev t
          ).setLastActivity ev.sessionId t) :=
        (sameSlice_upsertSession hne d.store rfl).trans
          (sameSlice_updateSession hne _)
      cases waking with
      | true =>
          exact (hupsert.trans (sameSlice_updateSession hne _)).trans
            (sameSlice_clearPendingDeps hne _)
      | false => exact hupsert
  | stop ev t =>
      obtain rfl := Option.some.inj hx
      exact ((sameSlice_upsertSession hne d.store rfl).trans
        (sameSlice_updateSession hne _)).trans (sameSlice_updateSession hne _)
  | ingest sessionId delta t =>
      obtain rfl := Option.some.inj hx
      exact sameSlice_applyDelta hne d.store delta t
  | queue sessionId entries =>
      obtain rfl := Option.some.inj hx
      exact sameSlice_queueForks hne d.store entries now
  | stamp session selected t =>
      exact SameSlice.foldl (fun s sp => sameSlice_stampFork hne s sp
        (Option.some.inj hx)) _ d.store
  | release session released =>
      obtain rfl := Option.some.inj hx
      exact sameSlice_deleteReleased hne d.store released
  | close sessionId =>
      obtain rfl := Option.some.inj hx
      exact sameSlice_closeSession hne d.store
  | closeIfOpen sessionId =>
      obtain rfl := Option.some.inj hx
      simp only [Section.run]
      split
      · split
        · exact sameSlice_closeSession hne d.store
        · exact .refl a _
      · exact .refl a _

end Autofork
