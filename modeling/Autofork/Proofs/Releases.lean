/-
What a release rests on.

A row of `pending` names the issuance that wrote it, so it goes back to
an entry of the log, which says what the dependent waits for
(`RowsHeld`). The listing and the deletion of a release are different
sections, and between them other handlers run; what the listing knows
of a dependent is still so at the deletion if it is said of the log
(`Releasing`).
-/
import Autofork.Proofs.Held
import Autofork.Proofs.Spawns
import Autofork.Proofs.Walk

namespace Autofork

open Lib

-- ============================================================ held rows

/-- A log entry that holds back `f` of session `a` until `preds`, as
they will be read back, have finished. -/
def Holds (a f : String) (preds : List String) : Obs → Prop
  | .issued _ session selected _ => session.sessionId = a
      ∧ ∃ sp ∈ withPreds selected, sp.2 ≠ [] ∧ sp.1.name = f
        ∧ splitComma (join "," sp.2) = preds
  | _ => False

instance (a f : String) (preds : List String) :
    DecidablePred (Holds a f preds)
  | .issued _ session selected _ => inferInstanceAs (Decidable
      (session.sessionId = a ∧ ∃ sp ∈ withPreds selected, sp.2 ≠ []
        ∧ sp.1.name = f ∧ splitComma (join "," sp.2) = preds))
  | .stopped .. | .prompted .. | .closed .. | .clock .. | .marked .. | .configured ..
  | .registered .. | .snapshot .. | .cancelled .. | .released ..
  | .answered .. => isFalse id

/-- The `n`-th entry of the log holds back `f`. -/
def HeldBy (a : String) (n : Nat) (f : String) (preds : List String)
    (l : List Obs) : Prop :=
  ∃ o ∈ entry l n, Holds a f preds o

instance (a : String) (n : Nat) (f : String) (preds : List String)
    (l : List Obs) : Decidable (HeldBy a n f preds l) :=
  inferInstanceAs (Decidable (∃ o ∈ entry l n, _))

/-- An entry holds back what it does, whatever is logged after it. -/
theorem heldBy_stable (a : String) (n : Nat) (f : String)
    (preds : List String) : Prog.Stable (HeldBy a n f preds) :=
  fun _ _ hl ⟨o, ho, h⟩ => ⟨o, entry_grow hl ho, h⟩

/-- Every row goes back to the issuance it names. -/
def RowsHeld (s : Store) (l : List Obs) : Prop :=
  ∀ row ∈ s.pending.rows,
    HeldBy row.sessionId row.issue row.forkName (splitComma row.preds) l

/-- What writes no row. -/
private theorem RowsHeld.extend {s : Store} {l : List Obs}
    (h : RowsHeld s l) (s' : Store) (obs : List Obs)
    (hrows : ∀ row ∈ s'.pending.rows, row ∈ s.pending.rows) :
    RowsHeld s' (obs ++ l) :=
  fun row hrow => heldBy_stable _ _ _ _ (List.suffix_append _ _)
    (h row (hrows row hrow))

/-- An entry of no section leaves the rows as they are. -/
theorem rowsHeld_passive {s : Store} {l : List Obs} (o : Obs)
    (h : RowsHeld s l) : RowsHeld s (o :: l) :=
  h.extend s [o] fun _ => id

/-- A section writes rows only with the entry they go back to. -/
theorem rowsHeld_run {k : Nat} {now : Int} {d : Daemon} (x : Section)
    (h : RowsHeld d.store d.log) :
    RowsHeld (x.run k now d).1 ((x.run k now d).2.2 ++ d.log) := by
  cases x with
  -- a row is an old one, or of the issuance logged now
  | stamp session selected t =>
      intro row hrow
      rcases mem_pending_stampWake hrow with hrow | ⟨sp, hsp, hne, rfl⟩
      · exact rowsHeld_passive _ h row hrow
      · exact ⟨_, entry_length _ _, rfl, sp, hsp, hne, rfl, rfl⟩
  -- a release only takes rows away
  | release session released =>
      exact h.extend _ _ fun row hrow => (mem_pending_deleteReleased.1 hrow).1
  | _ => exact h.extend _ _ (mem_pending_run (by simp) (by simp)).1

theorem rowsHeld_step (w : World) (act : Act)
    (h : RowsHeld w.daemon.store w.daemon.log) :
    RowsHeld (w.step act).daemon.store (w.step act).daemon.log :=
  w.store_invariant (C := fun _ _ => True) (Q := RowsHeld)
    (fun _ _ o _ h => rowsHeld_passive o h)
    (fun _ _ _ x _ _ h => rowsHeld_run x h) act trivial h

/-- What is listed for release goes back to its row. -/
theorem mem_releasable {s : Store} {a : String} {dep : PendingDep} :
    dep ∈ s.releasable a ↔ (∃ row ∈ s.pending.rows,
        row.sessionId = a ∧ row.toDep = dep)
      ∧ ∀ pred ∈ dep.preds,
        s.forkCompletedSince a pred dep.createdAt = true := by
  rw [Store.releasable, List.mem_filter, mem_listPendingDeps, List.all_eq_true]

-- ============================================================ completions

/-- What the registry shows as completed is on record. -/
structure Recorded (s : Store) (l : List Obs) : Prop where
  settled : s.Settled
  marked : ∀ a f since, s.forkCompletedSince a f since = true →
    ∃ o ∈ l, CompletesSince a f since o

/-- A section marks a completion only with the entry that says so. -/
theorem recorded_run {k : Nat} {now : Int} {d : Daemon} (x : Section)
    (h : Recorded d.store d.log) :
    Recorded (x.run k now d).1 ((x.run k now d).2.2 ++ d.log) where
  settled := settled_run x h.settled
  marked a f since hc := by
    rcases completedSince_run x h.settled hc with hc | ⟨o, ho, hsince⟩
    · obtain ⟨o, ho, hsince⟩ := h.marked a f since hc
      exact ⟨o, List.mem_append_right _ ho, hsince⟩
    · exact ⟨o, List.mem_append_left _ ho, hsince⟩

theorem recorded_step (w : World) (act : Act)
    (h : Recorded w.daemon.store w.daemon.log) :
    Recorded (w.step act).daemon.store (w.step act).daemon.log := by
  refine w.store_invariant (C := fun _ _ => True) (Q := Recorded)
    (fun s l o _ h => ⟨h.settled, fun a f since hc => ?_⟩)
    (fun _ _ _ x _ _ h => recorded_run x h) act trivial h
  obtain ⟨o', ho', hsince⟩ := h.marked a f since hc
  exact ⟨o', List.mem_cons_of_mem _ ho', hsince⟩

theorem recorded_init (disk : Disk) :
    Recorded (World.init disk).daemon.store (World.init disk).daemon.log where
  settled r hr := by cases hr
  marked a f since hc := by cases hc

/-- In every run what the registry shows as completed is on record. -/
theorem recorded_after (disk : Disk) (as : List Act) :
    Recorded (World.after disk as).daemon.store
      (World.after disk as).daemon.log :=
  run_invariant
    (P := fun w : World => Recorded w.daemon.store w.daemon.log)
    recorded_step (recorded_init disk) as

/-- Each of a dependent's predecessors has been marked since its row was
written. -/
def Finished (a : String) (dep : PendingDep) (l : List Obs) : Prop :=
  ∀ pred ∈ dep.preds, ∃ o ∈ l, CompletesSince a pred dep.createdAt o

instance (a : String) (dep : PendingDep) (l : List Obs) :
    Decidable (Finished a dep l) :=
  inferInstanceAs (Decidable (∀ pred ∈ dep.preds, _))

/-- Who has finished has finished for good. -/
theorem finished_stable (a : String) (dep : PendingDep) :
    Prog.Stable (Finished a dep) := by
  intro l l' hl h pred hpred
  obtain ⟨o, ho, hsince⟩ := h pred hpred
  exact ⟨o, hl.subset ho, hsince⟩

/-- A dependent that is listed for release is finished. -/
theorem Recorded.finished {s : Store} {l : List Obs} (h : Recorded s l)
    {a : String} {dep : PendingDep} (hdep : dep ∈ s.releasable a) :
    Finished a dep l :=
  fun pred hpred => h.marked a pred _ ((mem_releasable.1 hdep).2 pred hpred)

-- ====================================================== from list to delete

section releases

variable {a : String} {P : PendingDep → List Obs → Prop}

/-- Listing yields dependents of which `P` is so, and deleting asks for
it. -/
def releasesWhen (a : String) (P : PendingDep → List Obs → Prop) :
    Prog.Contract Op Op.Res Obs where
  pre l
    | .write (.release session released) =>
        session.sessionId = a → ∀ dep ∈ released, P dep l
    | _ => True
  post _
    | .releasable sessionId, (released : List PendingDep), l =>
        sessionId = a → ∀ dep ∈ released, P dep l
    | _, _, _ => True

private theorem releasesWhen_quiet (l : List Obs) (op : Op)
    (h : op.wakes = false) : (releasesWhen a P).pre l op := by
  unfold releasesWhen
  dsimp only
  split
  · cases h
  · trivial

/-- What is listed is deleted, and nothing else: `P` was so at the listing
and is stable. -/
private theorem releaseDue_when (hP : ∀ dep, Prog.Stable (P dep))
    (session : SessionRow) (l : List Obs) :
    Prog.Outline .free (releasesWhen a P) (fun _ _ => True)
      (releaseDue session) l := by
  refine ⟨fun _ => trivial, fun _ _ => ⟨trivial, fun released l _ hready => ?_⟩⟩
  show Prog.Outline .free (releasesWhen a P) (fun _ _ => True)
    (if List.isEmpty released then pure none else _) l
  -- nothing is deleted where nothing was listed
  split
  · trivial
  · exact ⟨fun _ => trivial, fun l₁ hd =>
      ⟨fun ha dep hdep => hP dep hd.suffix (hready ha dep hdep),
        fun _ _ _ _ => ⟨fun _ => trivial, fun _ _ =>
          ⟨trivial, fun _ _ _ _ => trivial⟩⟩⟩⟩

/-- No handler deletes what it has not listed. -/
private theorem handler_when (hP : ∀ dep, Prog.Stable (P dep)) (job : Job)
    (l : List Obs) :
    Prog.Outline .free (releasesWhen a P) (fun _ _ => True) job.handler l :=
  handler_outline_free (B := fun _ _ => True) (fun _ _ _ _ _ => trivial)
    releasesWhen_quiet (fun _ _ _ _ _ _ _ => trivial)
    (fun session l _ => releaseDue_when hP session l)
    (fun _ _ _ _ _ _ _ _ _ => trivial) job l

/-- A release is justified by what came before it. -/
def ReleasedWhen (a : String) (P : PendingDep → List Obs → Prop) :
    Obs → List Obs → Prop
  | .released _ session released, l =>
      session.sessionId = a → ∀ dep ∈ released, P dep l
  | _, _ => True

instance [∀ dep l, Decidable (P dep l)] (l : List Obs) :
    (o : Obs) → Decidable (ReleasedWhen a P o l)
  | .released _ session released => inferInstanceAs (Decidable
      (session.sessionId = a → ∀ dep ∈ released, P dep l))
  | .stopped .. | .prompted .. | .closed .. | .clock .. | .marked .. | .configured ..
  | .registered .. | .snapshot .. | .cancelled .. | .issued ..
  | .answered .. => isTrue trivial

/-- Whatever is deleted was listed when `P` was so. -/
structure Releasing (a : String) (P : PendingDep → List Obs → Prop)
    (w : World) : Prop where
  outlined : w.Outlined .free (fun _ => releasesWhen a P) fun _ _ _ _ => True
  each : Each (ReleasedWhen a P) w.daemon.log

theorem releasing_init (disk : Disk) : Releasing a P (World.init disk) :=
  ⟨World.outlined_init disk trivial, trivial⟩

/-- What a handler is about to delete it has listed. -/
theorem Releasing.deletes {w : World} (h : Releasing a P w)
    (hP : ∀ dep, Prog.Stable (P dep)) {k : Nat} {session : SessionRow}
    {released : List PendingDep}
    (hab : w.about k = some (.write (.release session released)))
    (ha : session.sessionId = a) : ∀ dep ∈ released, P dep w.daemon.log := by
  obtain ⟨task, f, ht, hprog⟩ := World.about_eq_some hab
  exact (h.outlined.next_free ht hprog fun l => handler_when hP task.job l).1 ha

/-- A listing is of dependents of which `P` is so now. -/
theorem Releasing.step {w : World} (h : Releasing a P w)
    (hP : ∀ dep, Prog.Stable (P dep))
    (hlist : ∀ dep ∈ w.daemon.store.releasable a, P dep w.daemon.log)
    (act : Act) : Releasing a P (w.step act) where
  outlined := by
    refine h.outlined.step_free (fun _ => releasesWhen_quiet)
      (fun _ task _ l => handler_when hP task.job l) ?_
    intro k op tick d r _ _ hex
    cases op with
    | releasable sessionId =>
        simp only [exec, Option.some.injEq, Prod.mk.injEq] at hex
        obtain ⟨rfl, rfl⟩ := hex
        rintro rfl
        exact hlist
    | _ => trivial
  each := by
    refine World.each_step (fun o l ho => ?_) (fun _ _ _ => trivial)
      (fun k task op f tick d r o _ ht hprog hex hdeed => ?_) h.each
    · cases o <;> trivial
    · have hpre := (h.outlined.next_free ht hprog
        fun l => handler_when hP task.job l).1
      cases op with
      | write x => cases x <;> cases hdeed <;> trivial
      | snapshot s => cases r <;> cases hdeed; trivial
      | _ => cases hdeed <;> trivial

end releases

end Autofork
