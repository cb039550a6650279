/-
What an issuance rests on.

A poll issues a wake for the session row it took on arrival, with forks
it has chosen over some moments, and never an empty one; the row says
how many genuine prompts the session had had by then. This holds in
every interleaving (`run_issuing`).

So the pause a wake's idle latches belong to had begun when its poll
took its row, and a wake issued before a genuine prompt consumes no
latch of the pause after it (`Stamps.idle_le`). A dependent that is
held has taken the latch of the trigger it is held under
(`held_under`): rows and latches of a session go together.
-/
import Autofork.Proofs.Held
import Autofork.Proofs.Pauses
import Autofork.Proofs.Walk

namespace Autofork

open Lib

/-- A stamping is of forks the poll has chosen for a row it has taken. -/
def ChosenFrom (k : Nat) (session : SessionRow)
    (selected : List SelectedFork) (l : List Obs) : Prop :=
  selected ≠ [] ∧ .snapshot k session ∈ l
    ∧ ∃ cfg moments, ∀ x ∈ selected, Chosen session cfg moments x

/-- What justifies an issuance, and a row taken. -/
def IssuedFrom : Obs → List Obs → Prop
  | .issued k session selected _, l => ChosenFrom k session selected l
  | .snapshot _ session, l => session.pauseEpoch = pauses session.sessionId l
  | _, _ => True

/-- The contract: stampings are of chosen forks. -/
def stampsChosen (k : Nat) : Prog.Contract Op Op.Res Obs where
  pre l
    | .write (.stamp session selected _) => ChosenFrom k session selected l
    | _ => True
  post := (onRecord k).post

private theorem stampsChosen_quiet (k : Nat) (l : List Obs) (op : Op)
    (h : op.wakes = false) : (stampsChosen k).pre l op := by
  unfold stampsChosen
  dsimp only
  split
  · cases h
  · trivial

private theorem releaseDue_chosen (k : Nat) (session : SessionRow)
    (l : List Obs) :
    Prog.Outline .free (stampsChosen k) (fun _ _ => True)
      (releaseDue session) l := by
  refine ⟨fun _ => trivial, fun _ _ => ⟨trivial, fun released l _ _ => ?_⟩⟩
  show Prog.Outline .free (stampsChosen k) (fun _ _ => True)
    (if List.isEmpty released then pure none else _) l
  split
  · trivial
  · exact ⟨fun _ => trivial, fun _ _ => ⟨trivial, fun _ _ _ _ =>
      ⟨fun _ => trivial, fun _ _ => ⟨trivial, fun _ _ _ _ => trivial⟩⟩⟩⟩

private theorem handler_chosen (k : Nat) (job : Job) (l : List Obs) :
    Prog.Outline .free (stampsChosen k) (fun _ _ => True) job.handler l := by
  refine handler_outline_free (B := fun session l => .snapshot k session ∈ l)
    (fun session l l' hl h => hl.subset h) (stampsChosen_quiet k)
    (fun a l r l' hpost session hr => hpost _ (by rw [hr]; rfl))
    (fun session l _ => releaseDue_chosen k session l) ?_ job l
  exact fun session cfg moments selected t l hl hne hsel =>
    ⟨hne, hl, cfg, moments, hsel⟩

/-- What every run keeps. -/
structure Issuing (w : World) : Prop where
  pauses : PausesMatch w.daemon.store w.daemon.log
  outlined : w.Outlined .free stampsChosen fun _ _ _ _ => True
  each : Each IssuedFrom w.daemon.log

private theorem issuing_step (w : World) (act : Act) (h : Issuing w) :
    Issuing (w.step act) where
  pauses := pausesMatch_step w act h.pauses
  outlined := h.outlined.step_free stampsChosen_quiet
    (fun k task _ l => handler_chosen k task.job l)
    (fun _ _ _ _ _ _ _ hex => (exec_deed hex).1)
  each := by
    refine World.each_step (fun o l ho => ?_) (fun _ _ _ => trivial)
      (fun k task op f tick d r o _ ht hprog hex hdeed => ?_) h.each
    · cases o <;> trivial
    · have hpre := (h.outlined.next_free ht hprog
        fun l => handler_chosen k task.job l).1
      cases op with
      | write x => cases x <;> cases hdeed <;> trivial
      | snapshot a =>
          cases r <;> cases hdeed
          simp only [exec] at hex
          split at hex
          next session hrow =>
            simp only [Option.some.injEq, Prod.mk.injEq] at hex
            rw [← hex.2]
            obtain ⟨rfl, hepoch, -⟩ := h.pauses.row hrow
            exact hepoch
          next => cases hex
      | _ => cases hdeed <;> trivial

theorem run_issuing (disk : Disk) (as : List Act) :
    Issuing (run World.step (World.init disk) as) :=
  run_invariant (P := Issuing) issuing_step
    ⟨pausesMatch_init disk, World.outlined_init disk trivial, trivial⟩ as

/-- A poll that is about to stamp has chosen what it stamps. -/
theorem Issuing.chosen {w : World} (h : Issuing w) {k : Nat}
    {session : SessionRow} {selected : List SelectedFork} {t : Int}
    (hab : w.about k = some (.write (.stamp session selected t))) :
    ChosenFrom k session selected w.daemon.log := by
  obtain ⟨task, f, ht, hprog⟩ := World.about_eq_some hab
  exact (h.outlined.next_free ht hprog fun l => handler_chosen k task.job l).1

-- ============================================================ the latches

/-- A chosen fork's latch is that of its trigger, at the row's epoch. -/
theorem Chosen.latch {session : SessionRow} {cfg : Config}
    {moments : List ForkMoment} {x : SelectedFork}
    (h : Chosen session cfg moments x) : ∃ trigger key,
      x.trigger = trigger.label
        ∧ latchKeyFor trigger session.pauseEpoch = some key
        ∧ x.latchKey = some key := by
  obtain ⟨entry, fork, trigger, hfirst, rfl⟩ := h
  have hkey := latchKeyFor_of_due hfirst.due.2 session.pauseEpoch
  exact ⟨trigger, _, rfl, hkey, hkey⟩

/-- What a log has stamped under the latch of a pause, it has stamped
once that pause had begun. -/
theorem Stamps.idle_le {l : List Obs} (h : Each IssuedFrom l) {a f : String}
    {n : Nat} {o : Obs} (ho : o ∈ l) (hs : Stamps a f (idlePauseKey n) o) :
    n ≤ pauses a l := by
  cases o with
  | issued k session selected t =>
      obtain ⟨rfl, x, hx, -, hkey⟩ := hs
      obtain ⟨newer, older, rfl⟩ := List.append_of_mem ho
      obtain ⟨-, hsnap, cfg, moments, hall⟩ :=
        h.of_suffix (List.suffix_append _ _)
      obtain ⟨trigger, key, -, hfor, hkey'⟩ := (hall x hx).latch
      obtain ⟨ys, zs, rfl⟩ := List.append_of_mem hsnap
      -- the row was taken when the session had had this many prompts
      have htaken : .snapshot k session :: zs
          <:+ newer ++ .issued k session selected t :: (ys ++ .snapshot k session :: zs) :=
        ⟨newer ++ .issued k session selected t :: ys, by simp⟩
      have hepoch : session.pauseEpoch = pauses session.sessionId zs :=
        h.of_suffix htaken
      rw [hkey'.symm.trans hkey, hepoch] at hfor
      rw [← latchKeyFor_eq_idle hfor]
      refine pauses_mono _ ?_
      exact ⟨newer ++ .issued k session selected t :: (ys ++ [.snapshot k session]),
        by simp⟩
  | _ => cases hs

/-- Any trigger but an idle one is latched under its label. -/
theorem latchKey_of_label {trigger first : ForkRunOn}
    (hlabel : trigger.label = first.label) {pauseEpoch : Int} {key : String}
    (hkey : latchKeyFor trigger pauseEpoch = some key)
    (hne : ∀ s, first ≠ .idle s) : key = first.label := by
  cases trigger with
  | idle s => exact absurd (ForkRunOn.eq_idle_of_label hlabel.symm) (hne s)
  | contextTokens _ | contextUsedPct _ | contextLeft _ =>
      exact (Option.some.inj hkey).symm.trans hlabel
  | _ => cases hkey

-- ========================================================== the held rows

/-- A dependent that is held has taken the latch of the trigger it is
held under, for the pause of the row its issuance worked from. -/
def HeldUnder (s : Store) (l : List Obs) : Prop :=
  ∀ row ∈ s.pending.rows, ∃ k session selected t trigger key,
    entry l row.issue = some (.issued k session selected t)
      ∧ trigger.label = row.triggerLabel
      ∧ latchKeyFor trigger session.pauseEpoch = some key
      ∧ s.isLatched row.sessionId row.forkName key = true

/-- A section that closes a session leaves it no row. -/
private theorem pending_closed {k : Nat} {now : Int} {d : Daemon}
    {x : Section} {row : PendingRec}
    (h : row ∈ (x.run k now d).1.pending.rows) :
    Obs.closed row.sessionId ∉ (x.run k now d).2.2 := by
  have gone : ∀ (s : Store) sessionId,
      row ∈ (s.closeSession sessionId).pending.rows →
      row ∈ s.pending.rows ∧ row.sessionId ≠ sessionId := by
    intro s sessionId h
    simpa [Store.closeSession, Table.mem_deleteWhere] using h
  have marked : ∀ {s : Store} {t : Int} {a : String},
      Obs.closed a ∉ marks d.store s t := by
    intro s t a hc
    obtain ⟨s, f, h⟩ := mem_marks hc
    cases h
  intro hc
  cases x with
  | classify ev t => exact marked hc
  | ingest sessionId delta t => exact marked hc
  | close sessionId =>
      simp only [Section.run, List.mem_singleton, Obs.closed.injEq] at hc
      exact (gone _ _ h).2 hc
  | closeIfOpen sessionId =>
      simp only [Section.run] at h hc
      split at hc
      next session hrow =>
        split at hc
        next hopen =>
          simp only [hrow, hopen, if_true, List.mem_singleton,
            Obs.closed.injEq] at h hc
          exact (gone _ _ h).2 hc
        next => cases hc
      next => cases hc
  | prune t =>
      simp only [Section.run, List.mem_reverse, List.mem_map] at h hc
      obtain ⟨x, hx, he⟩ := hc
      have hfold : ∀ (stale : List SessionRow) (s : Store),
          row ∈ (stale.foldl (fun s x => s.closeSession x.sessionId)
            s).pending.rows →
          row ∈ s.pending.rows ∧ ∀ x ∈ stale, row.sessionId ≠ x.sessionId := by
        intro stale
        induction stale with
        | nil => simp
        | cons x stale ih =>
            intro s h
            obtain ⟨h, hrest⟩ := ih _ h
            obtain ⟨h, hx⟩ := gone _ _ h
            exact ⟨h, List.forall_mem_cons.2 ⟨hx, hrest⟩⟩
      exact (hfold _ _ h).2 x hx (Obs.closed.inj he).symm
  | _ => simp [Section.run] at hc

private theorem heldUnder_run {k : Nat} {now : Int} {d : Daemon}
    (x : Section)
    (hchosen : ∀ session selected t, x = .stamp session selected t →
      ChosenFrom k session selected d.log)
    (h : HeldUnder d.store d.log) :
    HeldUnder (x.run k now d).1 ((x.run k now d).2.2 ++ d.log) := by
  intro row hrow
  by_cases hx : ∃ session selected t, x = .stamp session selected t
  · obtain ⟨session, selected, t, rfl⟩ := hx
    rcases mem_pending_stampWake hrow with hold | ⟨sp, hsp, -, rfl⟩
    · obtain ⟨j, session', selected', t', trigger, key, hentry, hlabel, hkey,
        hl⟩ := h row hold
      exact ⟨j, session', selected', t', trigger, key, entry_append _ hentry,
        hlabel, hkey, (isLatched_stampWake (k := k)).2 (.inl hl)⟩
    · -- the row and its latch are of one issuance
      obtain ⟨-, -, cfg, moments, hall⟩ := hchosen _ _ _ rfl
      have hsel : sp.1 ∈ selected := by
        have := List.mem_map_of_mem (f := Prod.fst) hsp
        rwa [withPreds_map_fst] at this
      obtain ⟨trigger, key, hlabel, hfor, hkey⟩ := (hall _ hsel).latch
      exact ⟨k, session, selected, t, trigger, key, entry_length _ _,
        hlabel.symm, hfor,
        (isLatched_stampWake (k := k)).2 (.inr ⟨rfl, sp.1, hsel, rfl, hkey⟩)⟩
  · push Not at hx
    have hold : row ∈ d.store.pending.rows := by
      by_cases hr : ∃ session released, x = .release session released
      · obtain ⟨session, released, rfl⟩ := hr
        exact (mem_pending_deleteReleased.1 hrow).1
      · push Not at hr
        exact (mem_pending_run hx hr).1 row hrow
    obtain ⟨j, session, selected, t, trigger, key, hentry, hlabel, hkey, hl⟩ :=
      h row hold
    exact ⟨j, session, selected, t, trigger, key, entry_append _ hentry, hlabel,
      hkey, (isLatched_run hx _ _ _).1.2 ⟨hl, pending_closed hrow⟩⟩

/-- In every run a held dependent has taken the latch of its trigger. -/
theorem held_under (disk : Disk) (as : List Act) :
    HeldUnder (World.after disk as).daemon.store
      (World.after disk as).daemon.log := by
  refine (run_invariant (P := fun w : World => Issuing w
      ∧ HeldUnder w.daemon.store w.daemon.log)
    (fun w act h => ⟨issuing_step w act h.1, ?_⟩) ⟨run_issuing disk [], ?_⟩ as).2
  · refine w.store_invariant
      (C := fun w _ => Issuing w) (Q := HeldUnder) (fun s l o _ h => ?_)
      (fun w k tick x hC hab h => heldUnder_run x
        (fun _ _ _ hx => hC.chosen (hx ▸ hab)) h) act h.1 h.2
    intro row hrow
    obtain ⟨j, session, selected, t, trigger, key, hentry, hrest⟩ := h row hrow
    exact ⟨j, session, selected, t, trigger, key, entry_append [o] hentry, hrest⟩
  · intro row hrow
    cases hrow

end Autofork
