/-
The books, replayed.

Four things the store keeps are books: the runs, the latches, the held
dependents and each session's pause. The log says what happened, one
entry at a time, and `Ledger.enter` says what each entry does to the
books, in terms of what it says alone: an issuance records its runs,
takes its latches and holds its dependents, in place of any earlier ones
of theirs; a release, a genuine prompt and a close take dependents away;
only a close gives latches back; and only Stops and genuine prompts move
a pause.

Whatever the interleaving, the store is what that makes of the file the
daemon came up with (`ledger_exact`): no section writes a book without
saying so, none says what it has not written, and what a task read
earlier decides nothing that its entry does not say.

One case needs what is known of the tasks. A stamping writes its rows
one after the other, so that it writes one for each dependent takes that
no fork is selected twice.
-/
import Autofork.Proofs.Held
import Autofork.Proofs.Pauses
import Autofork.Proofs.Sightings

namespace Autofork

open Lib

-- ============================================================== the books

@[ext] structure Ledger where
  runs : List RunRec
  /-- By session, fork and key. -/
  latched : Set (String × String × String)
  held : Set PendingRec
  /-- The epoch and the baseline of each session. -/
  pause : String → Int × Option Int

namespace Ledger

/-- What the `n`-th entry does to the books. -/
def enter (b : Ledger) (n : Nat) : Obs → Ledger
  | .stopped _ a t =>
      { b with
        pause := upd b.pause a ((b.pause a).1, (b.pause a).2 <|> some t) }
  | .prompted _ a true _ =>
      { b with
        held := {r | r ∈ b.held ∧ r.sessionId ≠ a}
        pause := upd b.pause a ((b.pause a).1 + 1, none) }
  | .closed a =>
      { b with
        latched := {x | x ∈ b.latched ∧ x.1 ≠ a}
        held := {r | r ∈ b.held ∧ r.sessionId ≠ a} }
  | .issued _ session selected t =>
      { b with
        runs := b.runs ++ issuedRuns session t (lastRunId b.runs) selected
        latched := {x | x ∈ b.latched ∨ session.sessionId = x.1
          ∧ ∃ sel ∈ selected, sel.name = x.2.1 ∧ sel.latchKey = some x.2.2}
        held := {r | (r ∈ b.held ∧ ¬(r.sessionId = session.sessionId
            ∧ ∃ sp ∈ withPreds selected, sp.2 ≠ [] ∧ sp.1.name = r.forkName))
          ∨ ∃ sp ∈ withPreds selected, sp.2 ≠ [] ∧ r = heldRow session t n sp} }
  | .released _ session released =>
      { b with held := {r | r ∈ b.held ∧ ¬(r.sessionId = session.sessionId
          ∧ ∃ dep ∈ released, dep.forkName = r.forkName)} }
  | _ => b

/-- The books after a log, from those before it. -/
def after (b : Ledger) : List Obs → Ledger
  | [] => b
  | o :: l => (b.after l).enter l.length o

/-- An entry that says nothing of the books. -/
def Silent (o : Obs) : Prop := ∀ (b : Ledger) n, b.enter n o = b

theorem after_append_silent {b : Ledger} {xs l : List Obs}
    (hxs : ∀ o ∈ xs, Silent o) : b.after (xs ++ l) = b.after l := by
  induction xs with
  | nil => rfl
  | cons o xs ih =>
      rw [List.forall_mem_cons] at hxs
      rw [List.cons_append, after, hxs.1, ih hxs.2]

theorem silent_passive {o : Obs} (ho : o.passive = true) : Silent o := by
  intro b n
  cases o with
  | stopped | prompted | closed | marked | issued | released => cases ho
  | _ => rfl

theorem silent_marks {s s' : Store} {t : Int} :
    ∀ o ∈ marks s s' t, Silent o := by
  intro o ho
  obtain ⟨a, f, rfl⟩ := mem_marks ho
  exact fun _ _ => rfl

end Ledger

/-- The books the store keeps. -/
def Store.ledger (s : Store) : Ledger where
  runs := s.runs
  latched := {x | s.isLatched x.1 x.2.1 x.2.2 = true}
  held := {r | r ∈ s.pending.rows}
  pause := s.pauseOf

-- ============================================================== sections

namespace Store

/-- What leaves the four tables alone leaves the books alone. -/
private theorem ledger_congr {s s' : Store} (hruns : s'.runs = s.runs)
    (hfires : s'.fires = s.fires) (hpending : s'.pending = s.pending)
    (hpause : ∀ a, s'.pauseOf a = s.pauseOf a) : s'.ledger = s.ledger := by
  unfold ledger
  rw [hruns, hpending, funext hpause]
  unfold isLatched
  rw [hfires]

theorem ledger_upsertSession (s : Store) (ev : Event) (t : Int) :
    (s.upsertSession ev t).ledger = s.ledger :=
  ledger_congr rfl rfl rfl (s.pauseOf_upsertSession ev t)

private theorem ledger_updateSession (s : Store) (a : String)
    (f : SessionRec → SessionRec) (hf : ∀ r, (f r).sessionId = r.sessionId)
    (hpause : ∀ r, (f r).pauseEpoch = r.pauseEpoch
      ∧ (f r).pauseStartedAt = r.pauseStartedAt) :
    (s.updateSession a f hf).ledger = s.ledger :=
  ledger_congr rfl rfl rfl fun _ => pauseOf_updateSession hpause

theorem ledger_recordStop (s : Store) (ev : Event) (t : Int) (k n : Nat) :
    (recordStop s ev t).ledger
      = s.ledger.enter n (.stopped k ev.sessionId t) := by
  apply Ledger.ext
  · rfl
  · rfl
  · rfl
  · funext a
    show (recordStop s ev t).pauseOf a = upd s.pauseOf ev.sessionId _ a
    rw [pauseOf_recordStop]
    by_cases ha : ev.sessionId = a
    · subst ha
      rw [if_pos rfl, upd_same]
      rfl
    · rw [if_neg ha, upd_other _ _ (Ne.symm ha)]

theorem ledger_recordPrompt (s : Store) (ev : Event) (waking : Bool) (t : Int)
    (k n : Nat) : (recordPrompt s ev waking t).ledger
      = s.ledger.enter n (.prompted k ev.sessionId waking t) := by
  cases waking with
  | false =>
      show ((s.upsertSession ev t).setLastActivity ev.sessionId t).ledger = _
      refine (ledger_updateSession _ _ _ _ ?_).trans (s.ledger_upsertSession ev t)
      exact fun _ => ⟨rfl, rfl⟩
  | true =>
      apply Ledger.ext
      · rfl
      · rfl
      · apply Set.ext
        intro r
        show r ∈ (s.pending.deleteWhere _).rows ↔ _
        rw [Table.mem_deleteWhere, beq_eq_false_iff_ne]
        rfl
      · funext a
        show (recordPrompt s ev true t).pauseOf a = upd s.pauseOf ev.sessionId _ a
        rw [pauseOf_recordPrompt]
        by_cases ha : ev.sessionId = a
        · subst ha
          rw [if_pos ⟨rfl, rfl⟩, upd_same]
          rfl
        · rw [if_neg fun h => ha h.2, upd_other _ _ (Ne.symm ha)]

theorem ledger_closeSession (s : Store) (a : String) (n : Nat) :
    (s.closeSession a).ledger = s.ledger.enter n (.closed a) := by
  apply Ledger.ext
  · rfl
  · apply Set.ext
    intro x
    exact isLatched_closeSession
  · apply Set.ext
    intro r
    show r ∈ (s.pending.deleteWhere _).rows ↔ _
    rw [Table.mem_deleteWhere, beq_eq_false_iff_ne]
    rfl
  · funext b
    show (s.updateSession a (fun r => { r with status := .closed })
      fun _ => rfl).pauseOf b = s.pauseOf b
    apply pauseOf_updateSession
    exact fun _ => ⟨rfl, rfl⟩

theorem ledger_deleteReleased (s : Store) (session : SessionRow)
    (released : List PendingDep) (k n : Nat) :
    (s.deleteReleased session.sessionId released).ledger
      = s.ledger.enter n (.released k session released) := by
  obtain ⟨pending, hs⟩ := deleteReleased_only s session.sessionId released
  apply Ledger.ext
  · rw [hs]
    rfl
  · rw [hs]
    rfl
  · apply Set.ext
    intro r
    exact mem_pending_deleteReleased
  · rw [hs]
    rfl

/-- A selection that can be stamped is entered as one. -/
theorem ledger_stampWake (s : Store) (session : SessionRow)
    {selected : List SelectedFork} (hsel : Stampable selected) (t : Int)
    (k n : Nat) : (s.stampWake session selected t n).ledger
      = s.ledger.enter n (.issued k session selected t) := by
  apply Ledger.ext
  · exact runs_stampWake s session selected t n
  · apply Set.ext
    intro x
    exact isLatched_stampWake (k := k)
  · apply Set.ext
    intro r
    exact mem_pending_stampWake_iff hsel.1
  · obtain ⟨roster, fires, runs, pending, hs⟩ :=
      stampWake_only s session selected t n
    rw [hs]
    rfl

end Store

/-- Closes are entered in the order they are made in. -/
private theorem ledger_closes (ids : List String) (s : Store) (b : Ledger)
    {l : List Obs} (h : s.ledger = b.after l) :
    (ids.foldl Store.closeSession s).ledger
      = b.after ((ids.map Obs.closed).reverse ++ l) := by
  induction ids generalizing s l with
  | nil => exact h
  | cons id ids ih =>
      rw [List.foldl_cons, ih (s.closeSession id) (l := .closed id :: l),
        List.map_cons, List.reverse_cons, List.append_assoc]
      · rfl
      · rw [s.ledger_closeSession id l.length, h]
        rfl

/-- A section enters what it writes. -/
theorem ledger_run {k : Nat} {now : Int} {d : Daemon} {x : Section}
    (hstamp : ∀ session selected t, x = .stamp session selected t →
      Stampable selected) {b : Ledger} (h : d.store.ledger = b.after d.log) :
    (x.run k now d).1.ledger = b.after ((x.run k now d).2.2 ++ d.log) := by
  have hsilent : (x.run k now d).1.ledger = d.store.ledger →
      (∀ o ∈ (x.run k now d).2.2, Ledger.Silent o) →
      (x.run k now d).1.ledger = b.after ((x.run k now d).2.2 ++ d.log) := by
    intro hs hobs
    rw [hs, h, Ledger.after_append_silent hobs]
  by_cases hcloses : x.closes = true
  · obtain ⟨ids, hs, hobs⟩ := closes_run k now d hcloses
    rw [hs, hobs]
    exact ledger_closes ids d.store b h
  · cases x with
    | start ev t =>
        exact hsilent (d.store.ledger_upsertSession ev t) fun o ho => by cases ho
    | stop ev t =>
        show (recordStop d.store ev t).ledger = _
        rw [Store.ledger_recordStop d.store ev t k d.log.length, h]
        rfl
    | prompt ev waking t =>
        show (recordPrompt d.store ev waking t).ledger = _
        rw [Store.ledger_recordPrompt d.store ev waking t k d.log.length, h]
        rfl
    | classify ev t =>
        refine hsilent ?_ Ledger.silent_marks
        obtain ⟨spawns, hs⟩ := classifyNotification_only d.store ev t
        show (classifyNotification d.store ev t).1.ledger = _
        rw [hs]
        rfl
    | ingest a delta t =>
        refine hsilent ?_ Ledger.silent_marks
        obtain ⟨spawns, hs⟩ := applyDelta_gauge d.store a delta t
        show (applyDelta d.store a delta t).ledger = _
        rw [hs]
        refine Store.ledger_updateSession _ a _ _ ?_
        exact fun _ => ⟨rfl, rfl⟩
    | queue a entries =>
        refine hsilent ?_ fun o ho => by cases ho
        obtain ⟨roster, hs⟩ := queueForks_only d.store a entries now
        show (d.store.queueForks a entries now).ledger = _
        rw [hs]
        rfl
    | stamp session selected t =>
        show (d.store.stampWake session selected t d.log.length).ledger = _
        rw [Store.ledger_stampWake d.store session (hstamp _ _ _ rfl) t k, h]
        rfl
    | release session released =>
        show (d.store.deleteReleased session.sessionId released).ledger = _
        rw [Store.ledger_deleteReleased d.store session released k
          d.log.length, h]
        rfl
    | _ => exact absurd rfl hcloses

-- ============================================================== over runs

/-- A daemon that comes up on a file. -/
abbrev World.on (file : Store) (disk : Disk) : World :=
  { daemon := { store := file, disk } }

private theorem sighted_on (file : Store) (disk : Disk) :
    (World.on file disk).Sighted := by
  intro k task ht
  cases ht

/-- Whatever file a daemon comes up on, and in every interleaving: the
runs, the latches, the held dependents and the pauses the store keeps are
those the log makes of the file's, entry by entry. -/
theorem ledger_exact (file : Store) (disk : Disk) (as : List Act) :
    (run World.step (World.on file disk) as).daemon.store.ledger
      = file.ledger.after
        (run World.step (World.on file disk) as).daemon.log := by
  refine (run_invariant (P := fun w : World => w.Sighted
    ∧ w.daemon.store.ledger = file.ledger.after w.daemon.log) ?_
    ⟨sighted_on file disk, rfl⟩ as).2
  intro w act h
  refine ⟨World.sighted_step w act h.1, ?_⟩
  refine w.store_invariant (C := fun w' _ => w' = w)
    (Q := fun s l => s.ledger = file.ledger.after l) ?_ ?_ act rfl h.2
  · intro s l o ho hs
    rw [hs, Ledger.after, Ledger.silent_passive ho]
  · intro w' k tick x hw hab hs
    subst hw
    refine ledger_run (fun session selected t hx => ?_) hs
    subst hx
    obtain ⟨m, hok, -⟩ := h.1.ok hab
    exact hok.2

end Autofork
