/-
Only later completions release.

A held dependent is released once the registry shows a completion of
each of its predecessors that is not older than its own row. The two
times that decide this are whole seconds read in different handlers, so
a completion that shares the second of the issuance counts even when it
came first (`released_by_earlier`): the very poll that issues the wake
may have ingested it.

`unfinished` asks of each stamping that the registry shows no such
completion yet. Then whatever the registry shows at a release was
marked after the issuance: rows say which issuance wrote them
(`RowsHeld`), and a completion that is new since is one some section
marked (`completed_run`). All that is said of the log, so what the
listing of a release saw is still so at the deletion (`Releasing`).
-/
import Autofork.Proofs.Releases
import Autofork.Proofs.Spawns

namespace Autofork

open Lib

-- =================================================== what has completed

/-- A spawn of `pred` was marked terminal after the `n`-th entry. -/
def CompletedAfter (a : String) (n : Nat) (pred : String)
    (l : List Obs) : Prop :=
  ∃ m < l.length, n < m ∧ ∃ o ∈ entry l m, Completes a pred o

instance (a : String) (n : Nat) (pred : String) (l : List Obs) :
    Decidable (CompletedAfter a n pred l) :=
  inferInstanceAs (Decidable (∃ m < l.length, _))

theorem completedAfter_stable (a : String) (n : Nat) (pred : String) :
    Prog.Stable (CompletedAfter a n pred) :=
  fun _ _ hl ⟨m, hlt, hm, o, ho, h⟩ =>
    ⟨m, Nat.lt_of_lt_of_le hlt hl.length_le, hm, o, entry_grow hl ho, h⟩

/-- A dependent held by a past issuance, all of whose predecessors have
completed since. -/
def Ready (a : String) (dep : PendingDep) (l : List Obs) : Prop :=
  HeldBy a dep.issue dep.forkName dep.preds l
    ∧ ∀ pred ∈ dep.preds, CompletedAfter a dep.issue pred l

instance (a : String) (dep : PendingDep) (l : List Obs) :
    Decidable (Ready a dep l) := inferInstanceAs (Decidable (_ ∧ _))

theorem ready_stable (a : String) (dep : PendingDep) :
    Prog.Stable (Ready a dep) := fun _ _ hl h =>
  ⟨heldBy_stable _ _ _ _ hl h.1,
    fun pred hp => completedAfter_stable _ _ _ hl (h.2 pred hp)⟩

/-- No predecessor a stamping for session `a` records is shown as
completed at the stamping's own time or later. -/
def unfinished (a : String) (w : World) : Act → Bool
  | .move k _ => match w.about k with
      | some (.write (.stamp session selected t)) =>
          session.sessionId != a || (withPreds selected).all fun sp =>
            (splitComma (join "," sp.2)).all fun pred =>
              !w.daemon.store.forkCompletedSince a pred t
      | _ => true
  | _ => true

-- ============================================================== the rows

/-- What the registry shows as completed since a row of session `a` was
written was marked after the issuance the row names. -/
structure Traced (a : String) (s : Store) (l : List Obs) : Prop where
  settled : s.Settled
  completed : ∀ row ∈ s.pending.rows, row.sessionId = a →
    ∀ pred ∈ splitComma row.preds,
      s.forkCompletedSince a pred row.createdAt = true →
      CompletedAfter a row.issue pred l

/-- What writes no row, and marks what it completes. -/
private theorem Traced.extend {a : String} {s : Store} {l : List Obs}
    (h : Traced a s l) (hheld : RowsHeld s l) (s' : Store) (obs : List Obs)
    (hsettled : s'.Settled)
    (hrows : ∀ row ∈ s'.pending.rows, row ∈ s.pending.rows)
    (hnew : ∀ f since, s'.forkCompletedSince a f since = true →
      s.forkCompletedSince a f since = true ∨ ∃ o ∈ obs, Completes a f o) :
    Traced a s' (obs ++ l) where
  settled := hsettled
  completed row hrow ha pred hpred hc := by
    obtain ⟨o, ho, -⟩ := hheld row (hrows row hrow)
    rcases hnew pred _ hc with hc | ⟨o', ho', hmark⟩
    · exact completedAfter_stable _ _ _ (List.suffix_append _ _)
        (h.completed row (hrows row hrow) ha pred hpred hc)
    · obtain ⟨m, hm, hentry⟩ := entry_new (l := l) ho'
      exact ⟨m, entry_lt hentry, Nat.lt_of_lt_of_le (entry_lt ho) hm, o',
        hentry, hmark⟩

/-- A stamping whose predecessors are unfinished. -/
private theorem Traced.stamp {a : String} {s : Store} {l : List Obs}
    (h : Traced a s l) (hheld : RowsHeld s l) (k : Nat) {session : SessionRow}
    {selected : List SelectedFork} {t : Int}
    (hunf : session.sessionId = a → ∀ sp ∈ withPreds selected,
      ∀ pred ∈ splitComma (join "," sp.2),
        s.forkCompletedSince a pred t = false) :
    Traced a (s.stampWake session selected t l.length)
      (.issued k session selected t :: l) := by
  have hsince := forkCompletedSince_stampWake s session selected t l.length
  have hold := h.extend hheld s [.issued k session selected t]
    h.settled (fun _ => id) (fun _ _ => .inl)
  refine ⟨?_, fun row hrow ha pred hpred hc => ?_⟩
  · obtain ⟨roster, fires, runs, pending, hs⟩ :=
      stampWake_only s session selected t l.length
    rw [hs]
    exact h.settled
  · rw [hsince] at hc
    rcases mem_pending_stampWake hrow with hrow | ⟨sp, hsp, -, rfl⟩
    · exact hold.completed row hrow ha pred hpred hc
    · have := hunf ha sp hsp pred hpred
      rw [heldRow] at hc
      rw [this] at hc
      cases hc

private theorem traced_step {a : String} (w : World) (act : Act)
    (hC : unfinished a w act = true)
    (hheld : RowsHeld w.daemon.store w.daemon.log)
    (h : Traced a w.daemon.store w.daemon.log) :
    Traced a (w.step act).daemon.store (w.step act).daemon.log := by
  refine w.store_invariant
    (C := fun w act => unfinished a w act = true)
    (Q := fun s l => RowsHeld s l ∧ Traced a s l) ?_ ?_ act hC ⟨hheld, h⟩ |>.2
  · intro s l o ho h
    exact ⟨rowsHeld_passive o h.1, h.2.extend h.1 _ [o] h.2.settled
      (fun _ => id) (fun _ _ => .inl)⟩
  · intro w k tick x hC hab h
    refine ⟨rowsHeld_run x h.1, ?_⟩
    cases x with
    | stamp session selected t =>
        refine h.2.stamp h.1 k fun ha sp hsp pred hpred => ?_
        simp only [unfinished, hab, ha, bne_self_eq_false, Bool.false_or,
          List.all_eq_true] at hC
        simpa using hC sp hsp pred hpred
    | release session released =>
        exact h.2.extend h.1 _ _ (settled_run _ h.2.settled)
          (fun row hrow => (mem_pending_deleteReleased.1 hrow).1)
          (fun f since => completed_run _ h.2.settled)
    | _ =>
        exact h.2.extend h.1 _ _ (settled_run _ h.2.settled)
          (mem_pending_run (by simp) (by simp)).1
          (fun f since => completed_run _ h.2.settled)

-- ========================================================== the releases

/-- What every run keeps. -/
structure ReleasingLater (a : String) (w : World) : Prop where
  held : RowsHeld w.daemon.store w.daemon.log
  traced : Traced a w.daemon.store w.daemon.log
  releasing : Releasing a (Ready a) w

/-- A dependent that is listed for release is ready. -/
private theorem ReleasingLater.ready {a : String} {w : World}
    (h : ReleasingLater a w) :
    ∀ dep ∈ w.daemon.store.releasable a, Ready a dep w.daemon.log := by
  intro dep hdep
  obtain ⟨⟨row, hrow, rfl, rfl⟩, hall⟩ := mem_releasable.1 hdep
  exact ⟨h.held row hrow, fun pred hpred =>
    h.traced.completed row hrow rfl pred hpred (hall pred hpred)⟩

private theorem releasingLater_step {a : String} (w : World) (act : Act)
    (hC : unfinished a w act = true) (h : ReleasingLater a w) :
    ReleasingLater a (w.step act) where
  held := rowsHeld_step w act h.held
  traced := traced_step w act hC h.held h.traced
  releasing := h.releasing.step (ready_stable a) h.ready act

/-- In every interleaving whose stampings find the predecessors they
record unfinished: a released dependent was held by a wake, and each of
its recorded predecessors was marked terminal after that wake was
issued. -/
theorem released_after_completion {disk : Disk} {a : String}
    {as : List Act}
    (hunf : Along World.step (fun w act => unfinished a w act = true)
      (World.init disk) as) :
    Each (ReleasedWhen a (Ready a))
      (run World.step (World.init disk) as).daemon.log := by
  refine (hunf.invariant (P := ReleasingLater a) releasingLater_step
    ⟨?_, ⟨?_, ?_⟩, releasing_init disk⟩).releasing.each
  · intro row hrow
    cases hrow
  · intro r hr
    cases hr
  · intro row hrow
    cases hrow

-- --------------------------------------------------------- one second

/-- A dependent held by one poll and released by the next, its
predecessor completed in between. -/
theorem released_after_completion_in_turn :
    (∃ o ∈ (run World.step
        (World.init (chain { newOffset := 1, promptTokens := some 5 }))
        (heldRun ++ .stop "s" :: Act.moves 16 1 20)).daemon.log,
      Releases "s" 11 "beta" o)
      ∧ Each (ReleasedWhen "s" (Ready "s")) (run World.step
        (World.init (chain { newOffset := 1, promptTokens := some 5 }))
        (heldRun ++ .stop "s" :: Act.moves 16 1 20)).daemon.log := by
  constructor
  · decide +kernel
  · apply released_after_completion
    decide +kernel

/-- An old completion of `alpha`, in the transcript next to a gauge that
makes both forks due. -/
private def stale : Delta where
  newOffset := 1
  promptTokens := some 5
  spawns := [("u", some "alpha")]
  notifications := [⟨some "u", none, some "completed"⟩]

/-- One poll, then a second one. -/
private def staleRun : List Act :=
  .stop "s" :: Act.moves 36 0 10 ++ .stop "s" :: Act.moves 16 1 20

/-- The poll that issues the wake has just ingested the old completion,
in the same second. Its wake asks for `alpha` to be spawned and holds
`beta` back; the next poll releases `beta`, though nothing was marked
since. -/
theorem released_by_earlier :
    ¬∀ (disk : Disk) (a : String) (as : List Act), Clocked as →
      Each (ReleasedWhen a (Ready a))
        (run World.step (World.init disk) as).daemon.log := by
  intro h
  exact absurd (h (chain stale) "s" staleRun (by decide)) (by decide +kernel)

end Autofork
