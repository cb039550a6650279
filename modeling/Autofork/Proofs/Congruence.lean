/-
Stores that agree on a session still do after the same statement of it.

Every section of session `a` reads and writes only its slice: run on two
stores that agree there it gives the same result and leaves them
agreeing (`slice_congr`). The pruning section, which is everybody's,
decides each session by its own row (`slice_prune`). Next to
`slice_run`, the frame of the other sessions, this is all that is said
of the tables where two runs are compared.
-/
import Autofork.Proofs.Prune
import Autofork.Proofs.Slices

namespace Autofork

open Lib

variable {a : String} {s s' : Store}

namespace SameSlice

-- =============================================================== reading

theorem getSession (h : SameSlice a s s') : s.getSession a = s'.getSession a := by
  rw [Store.getSession, h.session, Store.getSession]

theorem rosterOf (h : SameSlice a s s') : s.rosterOf a = s'.rosterOf a := by
  unfold Store.rosterOf Table.orderBy
  exact congrArg (List.insertionSort _) h.roster

theorem isLatched (h : SameSlice a s s') (forkName key : String) :
    s.isLatched a forkName key = s'.isLatched a forkName key := by
  have hkey : ∀ r : FireRec, r.key = (a, forkName, key) →
      (r.sessionId == a) = true := by
    intro r hr
    rw [beq_iff_eq]
    exact congrArg Prod.fst hr
  unfold Store.isLatched
  rw [s.fires.find?_select hkey, h.fires, ← s'.fires.find?_select hkey]

/-- A question about the spawns of a session is about its slice. -/
private theorem any_spawns (h : SameSlice a s s') {q : SpawnRec → Bool}
    (hq : ∀ r, q r = true → (r.sessionId == a) = true) :
    s.spawns.rows.any q = s'.spawns.rows.any q := by
  have hslice : ∀ T : Table SpawnRec.key,
      T.rows.any q = (T.select fun r => r.sessionId == a).any q := by
    intro T
    rw [Table.select, List.any_filter]
    refine congrArg (T.rows.any ·) (funext fun r => ?_)
    cases hr : q r with
    | true => rw [hq r hr, Bool.true_and]
    | false => rw [Bool.and_false]
  rw [hslice, hslice, h.spawns]

theorem isForkSpawn (h : SameSlice a s s') (toolUseId taskId : Option String) :
    s.isForkSpawn a toolUseId taskId = s'.isForkSpawn a toolUseId taskId := by
  refine h.any_spawns fun r hr => ?_
  rw [Store.matchesIds, Bool.and_eq_true] at hr
  exact hr.1

theorem forkCompletedSince (h : SameSlice a s s') (forkName : String)
    (since : Int) :
    s.forkCompletedSince a forkName since
      = s'.forkCompletedSince a forkName since := by
  refine h.any_spawns fun r hr => ?_
  simp only [Bool.and_eq_true] at hr
  exact hr.1.1.1

end SameSlice

/-- A held dependent without the number of its issuance. -/
def PendingDep.unnumbered (d : PendingDep) : PendingDep := { d with issue := 0 }

namespace SameSlice

theorem listPendingDeps (h : SameSlice a s s') :
    (s.listPendingDeps a).map PendingDep.unnumbered
      = (s'.listPendingDeps a).map PendingDep.unnumbered := by
  have hslice : ∀ s : Store, (s.listPendingDeps a).map PendingDep.unnumbered
      = (((s.pending.select fun r => r.sessionId == a).map
          PendingRec.unnumbered).insertionSort fun x y =>
            (decide (x.createdAt < y.createdAt)
              || (x.createdAt == y.createdAt
                && decide (x.forkName ≤ y.forkName))) = true).map
          PendingRec.toDep := by
    intro s
    rw [← List.map_insertionSort _ _ PendingRec.unnumbered _ fun _ _ _ _ => Iff.rfl,
      List.map_map, Store.listPendingDeps, List.map_map]
    rfl
  rw [hslice, hslice, h.pending]

/-- What is releasable is the same, but for the numbers. -/
theorem releasable (h : SameSlice a s s') :
    (s.releasable a).map PendingDep.unnumbered
      = (s'.releasable a).map PendingDep.unnumbered := by
  have hfilter : ∀ s : Store, (s.releasable a).map PendingDep.unnumbered
      = ((s.listPendingDeps a).map PendingDep.unnumbered).filter fun d =>
          d.preds.all fun pred => s.forkCompletedSince a pred d.createdAt := by
    intro s
    rw [List.filter_map]
    rfl
  rw [hfilter, hfilter, h.listPendingDeps]
  refine List.filter_congr fun d _ => ?_
  exact congrArg (d.preds.all ·) (funext fun pred => h.forkCompletedSince pred _)

-- =============================================================== writing

theorem foldl_congr {β : Type} {f g : Store → β → Store}
    (hf : ∀ s s' x, SameSlice a s s' → SameSlice a (f s x) (g s' x))
    (l : List β) (h : SameSlice a s s') :
    SameSlice a (l.foldl f s) (l.foldl g s') := by
  induction l generalizing s s' with
  | nil => exact h
  | cons x l ih => exact ih (hf s s' x h)

theorem updateSession (h : SameSlice a s s') {b : String}
    {f : SessionRec → SessionRec} {hf : ∀ r, (f r).sessionId = r.sessionId} :
    SameSlice a (s.updateSession b f hf) (s'.updateSession b f hf) := by
  refine ⟨?_, h.roster, h.fires, h.spawns, h.pending, h.runs⟩
  rw [Store.updateSession, Store.updateSession, Table.find?_updateWhere,
    Table.find?_updateWhere, h.session]

theorem upsertSession (h : SameSlice a s s') (ev : Event) (t : Int) :
    SameSlice a (s.upsertSession ev t) (s'.upsertSession ev t) := by
  refine ⟨?_, h.roster, h.fires, h.spawns, h.pending, h.runs⟩
  rw [Store.upsertSession, Store.upsertSession, Table.find?_insertOrUpdate,
    Table.find?_insertOrUpdate, h.session]

/-- Deleting held rows, by what is in a column. -/
private theorem pending_deleteWhere (h : SameSlice a s s')
    {q : PendingRec → Bool} (hq : ∀ r, q r.unnumbered = q r) :
    ((s.pending.deleteWhere q).select fun r => r.sessionId == a).map
        PendingRec.unnumbered
      = ((s'.pending.deleteWhere q).select fun r => r.sessionId == a).map
        PendingRec.unnumbered := by
  have hfilter : ∀ T : Table PendingRec.key,
      ((T.deleteWhere q).select fun r => r.sessionId == a).map
          PendingRec.unnumbered
        = ((T.select fun r => r.sessionId == a).map
          PendingRec.unnumbered).filter fun r => !q r := by
    intro T
    rw [Table.select_deleteWhere, List.filter_map]
    exact congrArg _ (List.filter_congr fun r _ => by simp [hq])
  rw [hfilter, hfilter, h.pending]

theorem clearPendingDeps (h : SameSlice a s s') (b : String) :
    SameSlice a (s.clearPendingDeps b) (s'.clearPendingDeps b) :=
  ⟨h.session, h.roster, h.fires, h.spawns, h.pending_deleteWhere fun _ => rfl,
    h.runs⟩

theorem deletePendingDep (h : SameSlice a s s') (b forkName : String) :
    SameSlice a (s.deletePendingDep b forkName)
      (s'.deletePendingDep b forkName) :=
  ⟨h.session, h.roster, h.fires, h.spawns, h.pending_deleteWhere fun _ => rfl,
    h.runs⟩

theorem closeSession (h : SameSlice a s s') (b : String) :
    SameSlice a (s.closeSession b) (s'.closeSession b) := by
  refine ⟨?_, ?_, ?_, ?_, ?_, h.runs⟩
  · have hsession : SameSlice a
        (s.updateSession b (fun r => { r with status := .closed }) fun _ => rfl)
        (s'.updateSession b (fun r => { r with status := .closed }) fun _ => rfl) :=
      h.updateSession
    exact hsession.session
  · exact (Table.select_deleteWhere ..).trans
      ((congrArg _ h.roster).trans (Table.select_deleteWhere ..).symm)
  · exact (Table.select_deleteWhere ..).trans
      ((congrArg _ h.fires).trans (Table.select_deleteWhere ..).symm)
  · exact (Table.select_deleteWhere ..).trans
      ((congrArg _ h.spawns).trans (Table.select_deleteWhere ..).symm)
  · exact h.pending_deleteWhere fun _ => rfl

theorem queueFork (h : SameSlice a s s') (forkName : String) (forkPath : Path)
    (t : Int) :
    SameSlice a (s.queueFork a forkName forkPath t)
      (s'.queueFork a forkName forkPath t) := by
  refine ⟨h.session, ?_, h.fires, h.spawns, h.pending, h.runs⟩
  rw [Store.queueFork, Store.queueFork,
    Table.select_insertOrIgnore _ decides_roster (beq_self_eq_true a),
    Table.select_insertOrIgnore _ decides_roster (beq_self_eq_true a), h.roster]

/-- Rewriting roster entries. -/
private theorem roster_updateWhere (h : SameSlice a s s')
    {q : RosterEntry → Bool} {f : RosterEntry → RosterEntry}
    {hf : ∀ r, (f r).key = r.key} :
    SameSlice a { s with roster := s.roster.updateWhere q f hf }
      { s' with roster := s'.roster.updateWhere q f hf } := by
  refine ⟨h.session, ?_, h.fires, h.spawns, h.pending, h.runs⟩
  show (s.roster.updateWhere q f hf).select _
    = (s'.roster.updateWhere q f hf).select _
  rw [Table.select_updateWhere _ _ decides_roster,
    Table.select_updateWhere _ _ decides_roster, h.roster]

theorem touchForkRan (h : SameSlice a s s') (b forkName : String) (t : Int) :
    SameSlice a (s.touchForkRan b forkName t) (s'.touchForkRan b forkName t) :=
  h.roster_updateWhere

theorem recordIssuedRun (h : SameSlice a s s') (b forkName label : String)
    (tags : Option String) (t : Int) :
    SameSlice a (s.recordIssuedRun b forkName label tags t)
      (s'.recordIssuedRun b forkName label tags t) := by
  refine ⟨h.session, h.roster, h.fires, h.spawns, h.pending, ?_⟩
  rw [Store.recordIssuedRun, Store.recordIssuedRun, List.filter_append,
    List.filter_append, List.map_append, List.map_append, h.runs,
    List.append_cancel_left_eq]
  by_cases hb : b = a
  · simp [hb, RunRec.unnumbered]
  · simp [hb]

theorem tryLatchFire (h : SameSlice a s s') (forkName key : String) (t : Int) :
    SameSlice a (s.tryLatchFire a forkName key t).1
      (s'.tryLatchFire a forkName key t).1 := by
  refine ⟨h.session, h.roster, ?_, h.spawns, h.pending, h.runs⟩
  rw [Store.tryLatchFire, Store.tryLatchFire,
    Table.select_insertOrIgnore _ decides_fires (beq_self_eq_true a),
    Table.select_insertOrIgnore _ decides_fires (beq_self_eq_true a), h.fires]

/-- Holding a dependent back, under two numbers. -/
theorem insertPendingDep (h : SameSlice a s s') (forkName : String)
    (forkPath : Path) (label : String) (overlap : Bool) (preds : List String)
    (t : Int) (issue issue' : Nat) :
    SameSlice a
      (s.insertPendingDep a forkName forkPath label overlap preds t issue)
      (s'.insertPendingDep a forkName forkPath label overlap preds t issue') := by
  refine ⟨h.session, h.roster, h.fires, h.spawns, ?_, h.runs⟩
  have hselect : ∀ (T : Table PendingRec.key) (r : PendingRec),
      (r.sessionId == a) = true →
      ((T.insertOrReplace r).select fun x => x.sessionId == a).map
          PendingRec.unnumbered
        = ((T.select fun x => x.sessionId == a).map
            PendingRec.unnumbered).filter (fun x => !decide (x.key = r.key))
          ++ [r.unnumbered] := by
    intro T r hr
    rw [Table.select_insertOrReplace T hr, List.map_append, List.filter_map]
    rfl
  rw [Store.insertPendingDep, Store.insertPendingDep,
    hselect _ _ (beq_self_eq_true a), hselect _ _ (beq_self_eq_true a), h.pending]
  rfl

theorem recordSpawn (h : SameSlice a s s') (toolUseId : String)
    (forkName : Option String) (t : Int) :
    SameSlice a (s.recordSpawn a toolUseId forkName t)
      (s'.recordSpawn a toolUseId forkName t) := by
  refine ⟨h.session, h.roster, h.fires, ?_, h.pending, h.runs⟩
  rw [Store.recordSpawn, Store.recordSpawn,
    Table.select_insertOrIgnore _ decides_spawn (beq_self_eq_true a),
    Table.select_insertOrIgnore _ decides_spawn (beq_self_eq_true a), h.spawns]

/-- Rewriting spawns. -/
private theorem spawns_updateWhere (h : SameSlice a s s') {q : SpawnRec → Bool}
    {f : SpawnRec → SpawnRec} {hf : ∀ r, (f r).key = r.key} :
    SameSlice a { s with spawns := s.spawns.updateWhere q f hf }
      { s' with spawns := s'.spawns.updateWhere q f hf } := by
  refine ⟨h.session, h.roster, h.fires, ?_, h.pending, h.runs⟩
  show (s.spawns.updateWhere q f hf).select _
    = (s'.spawns.updateWhere q f hf).select _
  rw [Table.select_updateWhere _ _ decides_spawn,
    Table.select_updateWhere _ _ decides_spawn, h.spawns]

theorem setSpawnTaskId (h : SameSlice a s s') (b toolUseId taskId : String) :
    SameSlice a (s.setSpawnTaskId b toolUseId taskId)
      (s'.setSpawnTaskId b toolUseId taskId) := h.spawns_updateWhere

theorem markSpawnTerminal (h : SameSlice a s s')
    (toolUseId taskId : Option String) (status : String) (t : Int) :
    SameSlice a (s.markSpawnTerminal a toolUseId taskId status t).1
        (s'.markSpawnTerminal a toolUseId taskId status t).1
      ∧ (s.markSpawnTerminal a toolUseId taskId status t).2
        = (s'.markSpawnTerminal a toolUseId taskId status t).2 := by
  unfold Store.markSpawnTerminal
  rw [← h.isForkSpawn]
  split
  · exact ⟨h.spawns_updateWhere, rfl⟩
  · exact ⟨h, rfl⟩

theorem applyDelta (h : SameSlice a s s') (delta : Delta) (t : Int) :
    SameSlice a (applyDelta s a delta t) (Autofork.applyDelta s' a delta t) := by
  unfold Autofork.applyDelta
  refine updateSession ?_
  refine foldl_congr (fun s s' n h => ?_) _ (foldl_congr (fun s s' p h =>
    h.setSpawnTaskId a p.1 p.2) _ (foldl_congr (fun s s' p h =>
    h.recordSpawn p.1 p.2 t) _ h))
  unfold ingestNotification
  split
  · exact h
  · exact (h.markSpawnTerminal ..).1

theorem stampFork (h : SameSlice a s s') {session : SessionRow}
    (ha : session.sessionId = a) (t : Int) (issue issue' : Nat)
    (sp : SelectedFork × List String) :
    SameSlice a (s.stampFork session t issue sp)
      (s'.stampFork session t issue' sp) := by
  subst ha
  simp only [Store.stampFork]
  have hissued := (h.touchForkRan session.sessionId sp.1.name t).recordIssuedRun
    session.sessionId sp.1.name sp.1.trigger
    (if sp.1.tags.isEmpty then none else some (join "," sp.1.tags)) t
  cases sp.1.latchKey with
  | none =>
      cases sp.2.isEmpty with
      | true => exact hissued
      | false => exact hissued.insertPendingDep ..
  | some key =>
      cases sp.2.isEmpty with
      | true => exact hissued.tryLatchFire ..
      | false => exact (hissued.tryLatchFire ..).insertPendingDep ..

theorem recordPrompt (h : SameSlice a s s') (ev : Event) (waking : Bool)
    (t : Int) :
    SameSlice a (recordPrompt s ev waking t)
      (Autofork.recordPrompt s' ev waking t) := by
  have hupsert : SameSlice a ((s.upsertSession ev t).setLastActivity ev.sessionId t)
      ((s'.upsertSession ev t).setLastActivity ev.sessionId t) :=
    (h.upsertSession ev t).updateSession
  cases waking with
  | true => exact hupsert.updateSession.clearPendingDeps ev.sessionId
  | false => exact hupsert

/-- Releasing the same dependents, whatever their numbers. -/
theorem deleteReleased (h : SameSlice a s s') (b : String)
    {released released' : List PendingDep}
    (heq : released.map PendingDep.unnumbered
      = released'.map PendingDep.unnumbered) :
    SameSlice a (s.deleteReleased b released) (s'.deleteReleased b released') := by
  have hfold : ∀ (s : Store) (l : List PendingDep), s.deleteReleased b l
      = (l.map PendingDep.unnumbered).foldl
        (fun s d => s.deletePendingDep b d.forkName) s := by
    intro s l
    rw [List.foldl_map]
    rfl
  rw [hfold, hfold, heq]
  exact foldl_congr (fun s s' d h => h.deletePendingDep b d.forkName) _ h

end SameSlice

-- ============================================================== sections

/-- A section of session `a` gives the same result on stores that agree
there, and leaves them agreeing. -/
theorem slice_congr {d d' : Daemon} {x : Section} (hx : x.about = some a)
    (h : SameSlice a d.store d'.store) (k k' : Nat) (now : Int) :
    SameSlice a (x.run k now d).1 (x.run k' now d').1
      ∧ (x.run k now d).2.1 = (x.run k' now d').2.1 := by
  cases x with
  | prune t => cases hx
  | start ev t => exact ⟨h.upsertSession ev t, rfl⟩
  | prompt ev waking t => exact ⟨h.recordPrompt ev waking t, rfl⟩
  | stop ev t =>
      exact ⟨(h.upsertSession ev t).updateSession.updateSession, rfl⟩
  | classify ev t =>
      obtain rfl := Option.some.inj hx
      simp only [Section.run, classifyNotification]
      split
      · exact h.markSpawnTerminal ..
      · exact ⟨h, h.isForkSpawn ..⟩
  | ingest sessionId delta t =>
      obtain rfl := Option.some.inj hx
      exact ⟨h.applyDelta delta t, rfl⟩
  | queue sessionId entries =>
      obtain rfl := Option.some.inj hx
      exact ⟨SameSlice.foldl_congr (fun s s' e h =>
        h.queueFork e.name e.path now) _ h, rfl⟩
  | stamp session selected t =>
      exact ⟨SameSlice.foldl_congr (fun s s' sp h =>
        h.stampFork (Option.some.inj hx) t _ _ sp) _ h, rfl⟩
  | release session released => exact ⟨h.deleteReleased _ rfl, rfl⟩
  | close sessionId => exact ⟨h.closeSession sessionId, rfl⟩
  | closeIfOpen sessionId =>
      obtain rfl := Option.some.inj hx
      simp only [Section.run]
      rw [← h.getSession]
      split
      · split
        · exact ⟨h.closeSession _, trivial⟩
        · exact ⟨h, trivial⟩
      · exact ⟨h, trivial⟩

-- ===================================================== closing by list

/-- Whether a session is among the open ones that satisfy `P` is told by
its row. -/
theorem mem_listOpenSessions_ids {P : SessionRow → Bool} :
    a ∈ (s.listOpenSessions.filter P).map SessionRow.sessionId
      ↔ ∃ x, s.getSession a = some x ∧ x.status = .open ∧ P x = true := by
  simp only [List.mem_map, List.mem_filter, Store.listOpenSessions,
    Table.mem_orderBy, Store.getSession, Option.map_eq_some_iff,
    Table.find?_eq_some_iff, beq_iff_eq]
  constructor
  · rintro ⟨x, ⟨⟨r, ⟨hr, hopen⟩, rfl⟩, hP⟩, hid⟩
    exact ⟨_, ⟨r, ⟨hr, hid⟩, rfl⟩, hopen, hP⟩
  · rintro ⟨x, ⟨r, ⟨hr, hid⟩, rfl⟩, hopen, hP⟩
    exact ⟨_, ⟨⟨r, ⟨hr, hopen⟩, rfl⟩, hP⟩, hid⟩

private theorem find?_updateSession (s : Store) (b : String)
    (f : SessionRec → SessionRec) (hf : ∀ r, (f r).sessionId = r.sessionId) :
    (s.updateSession b f hf).sessions.find? a
      = (s.sessions.find? a).map fun r => if r.sessionId == b then f r else r := by
  rw [Store.updateSession, Table.find?_updateWhere]

/-- Closing a session twice is closing it once. -/
private theorem closeSession_again (s : Store) :
    SameSlice a (s.closeSession a) ((s.closeSession a).closeSession a) := by
  have hfind : ∀ s : Store, (s.closeSession a).sessions.find? a
      = (s.sessions.find? a).map fun r =>
          if r.sessionId == a then { r with status := .closed } else r :=
    fun s => find?_updateSession s a (fun r => { r with status := .closed })
      fun _ => rfl
  refine ⟨?_, ?_, ?_, ?_, ?_, rfl⟩
  · rw [hfind (s.closeSession a), hfind s]
    cases s.sessions.find? a with
    | none => rfl
    | some r => by_cases hr : r.sessionId = a <;> simp [hr]
  all_goals
    simp only [Store.closeSession, Table.select_deleteWhere, List.filter_filter,
      Bool.and_self]

/-- Of closing a list of sessions, one of them sees whether it is on the
list. -/
private theorem closeSessions_slice (ids : List String) (s : Store) :
    SameSlice a (ids.foldl Store.closeSession s)
      (if a ∈ ids then s.closeSession a else s) := by
  induction ids generalizing s with
  | nil => exact .refl a s
  | cons b ids ih =>
      refine (ih (s.closeSession b)).trans ?_
      by_cases hb : b = a
      · subst hb
        rw [if_pos List.mem_cons_self]
        split
        · exact (closeSession_again s).symm
        · exact .refl b _
      · have hother := sameSlice_closeSession hb s
        simp only [List.mem_cons, Ne.symm hb, false_or]
        split
        · exact hother.symm.closeSession a
        · exact hother.symm

theorem SameSlice.closeSessions (h : SameSlice a s s') {ids ids' : List String}
    (hids : a ∈ ids ↔ a ∈ ids') :
    SameSlice a (ids.foldl Store.closeSession s)
      (ids'.foldl Store.closeSession s') := by
  refine (closeSessions_slice ids s).trans
    (SameSlice.trans ?_ (closeSessions_slice ids' s').symm)
  by_cases ha : a ∈ ids
  · rw [if_pos ha, if_pos (hids.1 ha)]
    exact h.closeSession a
  · rw [if_neg ha, if_neg (mt hids.2 ha)]
    exact h

/-- The configuration a session is judged by when it may have to be
closed. -/
def Daemon.settings (d : Daemon) (a : String) : Option Config :=
  (d.store.getSession a).map fun x => d.disk.cfgFor (some x.projectRoot)

section judged

variable {d d' : Daemon}

/-- Two daemons that agree on a session and judge it by the same
configuration judge it alike. -/
private theorem judged_congr (h : SameSlice a d.store d'.store)
    (hcfg : d.settings a = d'.settings a) (P P' : SessionRow → Bool)
    (hP : ∀ x, x.sessionId = a →
      d.disk.cfgFor (some x.projectRoot) = d'.disk.cfgFor (some x.projectRoot) →
      P x = P' x) :
    a ∈ (d.store.listOpenSessions.filter P).map SessionRow.sessionId
      ↔ a ∈ (d'.store.listOpenSessions.filter P').map SessionRow.sessionId := by
  rw [mem_listOpenSessions_ids, mem_listOpenSessions_ids, ← h.getSession]
  refine exists_congr fun x => and_congr_right fun hx => and_congr_right fun _ => ?_
  have hid : x.sessionId = a := Store.sessionId_of_getSession hx
  unfold Daemon.settings at hcfg
  rw [← h.getSession, hx, Option.map_some, Option.map_some,
    Option.some.injEq] at hcfg
  rw [hP x hid hcfg]

theorem timedOut_congr (h : SameSlice a d.store d'.store)
    (hcfg : d.settings a = d'.settings a) (t : Int) :
    a ∈ (d.store.listOpenSessions.filter (isTimedOut d · t)).map
        SessionRow.sessionId
      ↔ a ∈ (d'.store.listOpenSessions.filter (isTimedOut d' · t)).map
        SessionRow.sessionId := by
  refine judged_congr h hcfg _ _ fun x _ hx => ?_
  unfold isTimedOut
  rw [hx]

/-- Pruning closes session `a` on both sides or on neither. -/
theorem slice_prune (h : SameSlice a d.store d'.store)
    (hcfg : d.settings a = d'.settings a) (hparked : d.parked a = d'.parked a)
    (k k' : Nat) (now t : Int) :
    SameSlice a ((Section.prune t).run k now d).1
      ((Section.prune t).run k' now d').1 := by
  have hids := judged_congr h hcfg (isStale d · t) (isStale d' · t)
    fun x hid hx => by
      unfold isStale Daemon.isParked
      rw [hx, hid, hparked]
  show SameSlice a
    ((d.store.listOpenSessions.filter (isStale d · t)).foldl _ d.store)
    ((d'.store.listOpenSessions.filter (isStale d' · t)).foldl _ d'.store)
  rw [← List.foldl_map (f := SessionRow.sessionId) (g := Store.closeSession),
    ← List.foldl_map (f := SessionRow.sessionId) (g := Store.closeSession)]
  exact h.closeSessions hids

end judged

end Autofork
