/-
Whether a dropped dependent is selected again.

A genuine prompt drops the dependents held for the pause it ends, and
begins a new one. Their idle latches belonged to the old pause, so
under an idle trigger a dropped dependent is as good as new
(`Stamps.idle_le`): only a wake since the drop can have spent its
latch. A context threshold latches for the session, and a dependent
takes its latch when it is held, not when it is released. One held under
a threshold and dropped is therefore lost as far as that threshold goes
(`dropped_lost`), and because the first match settles the trigger
before any latch is looked at, it also keeps the fork's other triggers
from firing.
-/
import Autofork.Proofs.Issues
import Autofork.Proofs.Select

namespace Autofork

open Lib

/-- The latch of a fork's first match is spent: for an idle trigger by a
wake since the drop, for a threshold by one since the session was
opened. -/
def Spent (session : SessionRow) (f : String) (dropped l : List Obs) :
    ForkRunOn → Prop
  | .idle _ => Consumed session.sessionId f (idlePauseKey session.pauseEpoch)
      (newer dropped l)
  | first => Consumed session.sessionId f first.label l

/-- A drop is a genuine prompt on record. -/
private theorem pauses_of_drop {a : String} {w : World} {act : Act}
    (hdrop : promptOf w act = some a) :
    ∃ o, (w.step act).daemon.log = o :: w.daemon.log ∧ Genuine a o := by
  unfold promptOf at hdrop
  split at hdrop
  next k tick =>
    split at hdrop
    next ev t hab =>
      rw [World.step_write hab]
      exact ⟨_, rfl, Option.some.inj hdrop⟩
    next => cases hdrop
  next => cases hdrop

/-- The epoch of a row taken after a drop. -/
private theorem pauses_lt_epoch {l₀ l : List Obs} {o : Obs} {j : Nat}
    {session : SessionRow} (hl : o :: l₀ <:+ l) (heach : Each IssuedFrom l)
    (ho : Genuine session.sessionId o)
    (hpoll : .snapshot j session ∈ newer (o :: l₀) l) :
    ∃ n : Nat, session.pauseEpoch = n ∧ pauses session.sessionId l₀ < n := by
  obtain ⟨xs, ys, hnew⟩ := List.append_of_mem hpoll
  have hsplit := newer_of_suffix hl
  rw [hnew] at hsplit
  refine ⟨pauses session.sessionId (ys ++ o :: l₀), ?_, ?_⟩
  · have hsnap : .snapshot j session :: (ys ++ o :: l₀) <:+ l :=
      ⟨xs, by rw [← hsplit]; simp⟩
    exact heach.of_suffix hsnap
  · have : pauses session.sessionId (o :: l₀)
        = pauses session.sessionId l₀ + 1 :=
      List.countP_cons_of_pos (by simpa using ho)
    have := pauses_mono session.sessionId
      (List.suffix_append ys (o :: l₀))
    omega

/-- After a drop, the latch a due trigger takes is taken exactly when it
is spent. -/
private theorem latchTaken_iff_spent {disk : Disk} {bs cs : List Act}
    {act : Act} {j : Nat} {session : SessionRow}
    (hdrop : promptOf (World.after disk bs) act = some session.sessionId)
    (hpoll : .snapshot j session ∈ newer
      (World.after disk (bs ++ [act])).daemon.log
      (World.after disk (bs ++ act :: cs)).daemon.log)
    {f : String} {moments : List ForkMoment} {defaultIdleSecs : Nat}
    {first : ForkRunOn} (hdue : Due moments defaultIdleSecs first) :
    latchTaken (World.after disk (bs ++ act :: cs)).daemon.store session f
        first = true
      ↔ Spent session f (World.after disk (bs ++ [act])).daemon.log
        (World.after disk (bs ++ act :: cs)).daemon.log first := by
  have hlatches := latched_iff_consumed disk (bs ++ act :: cs)
  have heach := (run_issuing disk (bs ++ act :: cs)).each
  have hgrow : (World.after disk (bs ++ [act])).daemon.log
      <:+ (World.after disk (bs ++ act :: cs)).daemon.log := by
    rw [show bs ++ act :: cs = (bs ++ [act]) ++ cs from by simp]
    exact World.after_log disk _ cs
  obtain ⟨o, hlog, ho⟩ := pauses_of_drop hdrop
  rw [latchTaken, latchKeyFor_of_due hdue, Option.any_some]
  cases first with
  | idle s =>
      -- nothing stamped before the drop has this pause's key
      have hlog : (World.after disk (bs ++ [act])).daemon.log
          = o :: (World.after disk bs).daemon.log := by
        rw [World.after, run_append]
        exact hlog
      rw [hlog] at hpoll hgrow ⊢
      obtain ⟨n, hn, hlt⟩ := pauses_lt_epoch hgrow heach ho hpoll
      have hold : ∀ x ∈ o :: (World.after disk bs).daemon.log,
          ¬Stamps session.sessionId f (idlePauseKey session.pauseEpoch) x := by
        intro x hx hs
        rw [hn] at hs
        rcases List.mem_cons.1 hx with rfl | hx
        · cases x <;> first | exact hs | exact ho
        · have := Stamps.idle_le (run_issuing disk bs).each hx hs
          exact absurd hlt (Nat.not_lt.2 this)
      have hinert : Consumed session.sessionId f
          (idlePauseKey session.pauseEpoch)
          (newer (o :: (World.after disk bs).daemon.log)
            (World.after disk (bs ++ act :: cs)).daemon.log
            ++ o :: (World.after disk bs).daemon.log)
          ↔ _ := since_append_inert hold
      rw [newer_of_suffix hgrow] at hinert
      exact (hlatches ..).trans hinert
  | _ => exact hlatches ..

/-- After a genuine prompt has dropped a held dependent, a poll that took
its row since then selects it exactly when the filters and throttles
let it through and the latch of its first match is not spent. -/
theorem dropped_refires_iff {disk : Disk} {bs cs : List Act} {act : Act}
    {session : SessionRow} {row : PendingRec} {j k : Nat} {t : Int}
    {cfg : Config} {moments : List ForkMoment} {d' : Daemon}
    {sel : List SelectedFork} {entry : RosterEntry} {fork : ForkDef}
    (hheld : row ∈ (World.after disk bs).daemon.store.pending.rows)
    (hrow : row.sessionId = session.sessionId)
    (hdrop : promptOf (World.after disk bs) act = some session.sessionId)
    (hpoll : .snapshot j session ∈ newer
      (World.after disk (bs ++ [act])).daemon.log
      (World.after disk (bs ++ act :: cs)).daemon.log)
    (hrun : (selectForks session cfg moments).alone (at_ k t)
      (World.after disk (bs ++ act :: cs)).daemon = some (d', sel))
    (hentry : entry ∈ d'.store.rosterOf session.sessionId)
    (hname : entry.forkName = row.forkName)
    (hfork : (World.after disk (bs ++ act :: cs)).daemon.disk.forkAt entry
      = some fork)
    (hadm : Admitted (World.after disk (bs ++ act :: cs)).daemon.store
      session cfg t entry fork) :
    ((∃ x ∈ sel, x.name = row.forkName) ↔ ∃ first,
        FirstMatch fork.runOn moments cfg.defaultIdleDeadlineSecs first
          ∧ ¬Spent session row.forkName
            (World.after disk (bs ++ [act])).daemon.log
            (World.after disk (bs ++ act :: cs)).daemon.log first)
      ∧ (Obs.closed session.sessionId
          ∉ newer (World.after disk bs).daemon.log
            (World.after disk (bs ++ act :: cs)).daemon.log →
        ∀ first, first.label = row.triggerLabel → (∀ s, first ≠ .idle s) →
          Spent session row.forkName
            (World.after disk (bs ++ [act])).daemon.log
            (World.after disk (bs ++ act :: cs)).daemon.log first) := by
  refine ⟨?_, fun hopen first hlabel hne => ?_⟩
  · rw [← hname, selectForks_selects hrun hentry hfork]
    simp only [hadm, true_and]
    refine exists_congr fun first => and_congr_right fun hfirst => ?_
    rw [← latchTaken_iff_spent hdrop hpoll hfirst.due.2, Bool.not_eq_true]
  · obtain ⟨_, _, _, _, trigger, key, -, hlabel', hkey, hl⟩ :=
      held_under disk bs row hheld
    have hkey' : key = first.label :=
      latchKey_of_label (hlabel'.trans hlabel.symm) hkey hne
    have hconsumed := (latched_iff_consumed disk bs _ _ _).1 hl
    rw [hrow, hkey'] at hconsumed
    have hspent : Consumed session.sessionId row.forkName first.label
        (World.after disk (bs ++ act :: cs)).daemon.log := by
      rw [← newer_of_suffix (World.after_log disk bs (act :: cs))]
      exact since_grow (fun x hx he => hopen (he ▸ hx)) hconsumed
    cases first with
    | idle s => exact absurd rfl (hne s)
    | _ => exact hspent

-- --------------------------------------------------- one drop, two ways

/-- Two forks due at the same moments, the second to run after the
first. -/
private def pair (runOn : List ForkRunOn) (promptTokens : Option Nat) :
    Disk :=
  .holding [("alpha", { runOn }), ("beta", { runOn, after := ["alpha"] })]
    { wakeDebounceSecs := 0 } (some { newOffset := 1, promptTokens })

/-- A poll holds `beta` back, and a genuine prompt is about to be
recorded. -/
private def pairHeld : List Act :=
  .stop "s" :: Act.moves 15 0 10 ++ Act.moves 24 0 70
    ++ .prompt "s" :: Act.moves 2 1 80

private def pairDrop : Act := .move 1 { now := 80 }

/-- The turn ends, and the next poll takes its row. -/
private def pairNext : List Act :=
  Act.moves 2 1 80 ++ .stop "s" :: Act.moves 11 2 90

/-- The row that poll takes. -/
private def pairRow (promptTokens : Option Nat) : SessionRow where
  sessionId := "s"
  projectRoot := "/p"
  cwd := "/p"
  transcriptPath := some "t"
  status := .open
  lastActivity := 90
  transcriptOffset := 1
  promptTokens := promptTokens
  model := none
  createdAt := 10
  enableTags := none
  disableTags := none
  pauseEpoch := 1
  pauseStartedAt := some 90

/-- The roster entry of `beta`. -/
private def betaEntry : RosterEntry where
  sessionId := "s"
  forkName := "beta"
  forkPath := "beta"
  queuedAt := 70
  ranAt := some 70

/-- The row `beta` is held under. -/
private def betaHeld (triggerLabel : String) (issue : Nat) : PendingRec where
  sessionId := "s"
  forkName := "beta"
  forkPath := "beta"
  triggerLabel := triggerLabel
  overlap := false
  preds := "alpha"
  createdAt := 70
  issue := issue

/-- A selection of that poll, once it has run. -/
private theorem pair_selects (disk : Disk) (promptTokens : Option Nat)
    (moments : List ForkMoment) (t : Int)
    (h : ((selectForks (pairRow promptTokens) {} moments).alone (at_ 2 t)
      (World.after disk (pairHeld ++ pairDrop :: pairNext)).daemon).isSome)
    (hentry : betaEntry ∈ ((World.after disk
      (pairHeld ++ pairDrop :: pairNext)).daemon.store.queueForks "s"
        ((World.after disk
          (pairHeld ++ pairDrop :: pairNext)).daemon.disk.discover "/p")
        t).rosterOf "s") :
    ∃ d' sel, (selectForks (pairRow promptTokens) {} moments).alone (at_ 2 t)
        (World.after disk (pairHeld ++ pairDrop :: pairNext)).daemon
          = some (d', sel)
      ∧ betaEntry ∈ d'.store.rosterOf "s" := by
  obtain ⟨⟨d', sel⟩, hrun⟩ := Option.isSome_iff_exists.1 h
  refine ⟨d', sel, hrun, ?_⟩
  rw [(selectForks_alone hrun).1]
  exact hentry

/-- Held under an idle trigger: in the next pause `beta` is selected
again. -/
theorem dropped_refires_idle :
    ∃ d' sel, (selectForks (pairRow none) {} [.idle 60]).alone (at_ 2 150)
        (World.after (pair [.idle (some 60)] none)
          (pairHeld ++ pairDrop :: pairNext)).daemon = some (d', sel)
      ∧ ∃ x ∈ sel, x.name = "beta" := by
  obtain ⟨d', sel, hrun, hentry⟩ := pair_selects (pair [.idle (some 60)] none)
    none [.idle 60] 150 (by decide +kernel) (by decide +kernel)
  have hfirst : FirstMatch [.idle (some 60)] [.idle 60] 600 (.idle (some 60)) :=
    ⟨[], .idle 60, [], rfl, by simp, [], [], rfl, by simp, by decide⟩
  have hrefires := (@dropped_refires_iff (pair [.idle (some 60)] none) pairHeld
    pairNext pairDrop (pairRow none) (betaHeld "idle:60" 13) 2 2 150 {}
    [.idle 60] d' sel betaEntry
    { runOn := [.idle (some 60)], after := ["alpha"] } (by decide +kernel) rfl
    (by decide +kernel) (by decide +kernel) hrun hentry rfl (by decide +kernel)
    ⟨by decide +kernel, by decide +kernel, by decide +kernel⟩).1
  refine ⟨d', sel, hrun, hrefires.2 ⟨_, hfirst, ?_⟩⟩
  unfold Spent Consumed
  decide +kernel

/-- Held under a context threshold: the threshold still matches in the
next pause, no wake comes in between, and `beta` is not selected. -/
theorem dropped_lost :
    ¬∀ (disk : Disk) (bs cs : List Act) (act : Act) (session : SessionRow)
      (row : PendingRec) (j k : Nat) (t : Int) (cfg : Config)
      (moments : List ForkMoment) (d' : Daemon) (sel : List SelectedFork)
      (entry : RosterEntry) (fork : ForkDef) (trigger : ForkRunOn),
      (∀ disk', .edit disk' ∉ bs ++ act :: cs) →
      row ∈ (World.after disk bs).daemon.store.pending.rows →
      row.sessionId = session.sessionId →
      promptOf (World.after disk bs) act = some session.sessionId →
      .snapshot j session ∈ newer (World.after disk (bs ++ [act])).daemon.log
        (World.after disk (bs ++ act :: cs)).daemon.log →
      (selectForks session cfg moments).alone (at_ k t)
        (World.after disk (bs ++ act :: cs)).daemon = some (d', sel) →
      entry ∈ d'.store.rosterOf session.sessionId →
      entry.forkName = row.forkName →
      (World.after disk (bs ++ act :: cs)).daemon.disk.forkAt entry
        = some fork →
      fork.throttleSecs = none →
      Admitted (World.after disk (bs ++ act :: cs)).daemon.store session cfg t
        entry fork →
      trigger ∈ fork.runOn → trigger.label = row.triggerLabel →
      Due moments cfg.defaultIdleDeadlineSecs trigger →
      ∃ x ∈ sel, x.name = row.forkName := by
  intro h
  obtain ⟨d', sel, hrun, hentry⟩ :=
    pair_selects (pair [.contextTokens 1] (some 5)) (some 5)
      [.context 5 (some 200000)] 90 (by decide +kernel) (by decide +kernel)
  obtain ⟨x, hx, -⟩ := h (pair [.contextTokens 1] (some 5)) pairHeld pairNext
    pairDrop (pairRow (some 5)) (betaHeld "context_tokens:1" 11) 2 2 90 {}
    [.context 5 (some 200000)] d' sel betaEntry
    { runOn := [.contextTokens 1], after := ["alpha"] } (.contextTokens 1)
    (by simp [pairHeld, pairDrop, pairNext, Act.moves, Act.stop, Act.prompt])
    (by decide +kernel) rfl (by decide +kernel) (by decide +kernel) hrun hentry
    rfl (by decide +kernel) rfl
    ⟨by decide +kernel, by decide +kernel, by decide +kernel⟩ (by decide)
    (by decide +kernel) ⟨_, List.mem_singleton.2 rfl, by decide⟩
  have hnone : selectFrom d'.store
      (World.after (pair [.contextTokens 1] (some 5))
        (pairHeld ++ pairDrop :: pairNext)).daemon.disk (pairRow (some 5)) {}
      [.context 5 (some 200000)] 90 = [] := by
    rw [(selectForks_alone hrun).1]
    decide +kernel
  rw [(selectForks_alone hrun).2, hnone] at hx
  cases hx

end Autofork
