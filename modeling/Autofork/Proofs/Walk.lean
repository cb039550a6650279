/-
Through the handlers once.

Two operations carry what is hard about this daemon: the stamping of a
wake, which `buildWake` alone performs, and the deletion of released
dependents, which `releaseDue` alone performs. Every other program is
`Quiet`. What a selection returns, it has chosen for its session over
its moments (`Chosen`), whatever the store says meanwhile.

So a poll keeps to a contract as soon as its stampings and releases do:
`awaitDue_outline` for a poll that has its session and an assertion to
carry from await to await, `handleStopWait_outline` for a whole poll in
the free discipline.
-/
import Autofork.Proofs.Steps

namespace Autofork

open Lib

/-- The operations that issue a wake or release dependents. -/
def Op.wakes : Op → Bool
  | .write (.stamp ..) | .write (.release ..) => true
  | _ => false

/-- An operation that neither wakes nor awaits. -/
abbrev Op.Quiet (op : Op) : Prop := op.wakes = false ∧ op.awaits = false

/-- A program that neither wakes nor awaits. -/
abbrev Quiet {α : Type} (p : Handler α) : Prop := p.Every Op.Quiet

-- ====================================================== quiet programs

/-- What a poll does before and between its awaits, short of a wake: of
the writing sections only those that record what it came with. -/
def Op.tame : Op → Bool
  | .write (.stop ..) | .write (.ingest ..) | .write (.queue ..) => true
  | .write _ | .select _ => false
  | _ => true

/-- Such an operation is quiet. -/
theorem Op.quiet_of_tame {op : Op} (h : op.tame = true) : op.Quiet := by
  cases op with
  | write x => cases x <;> first | exact ⟨rfl, rfl⟩ | cases h
  | select sleepSecs => cases h
  | _ => exact ⟨rfl, rfl⟩

/-- A program of such operations. -/
abbrev Tame {α : Type} (p : Handler α) : Prop :=
  p.Every fun op => op.tame = true

/-- A program of such operations neither wakes nor awaits. -/
theorem Tame.quiet {α : Type} {p : Handler α} (h : Tame p) : Quiet p :=
  Prog.Every.mono (fun _ => Op.quiet_of_tame) h

theorem tame_go {op : Op} (h : op.tame = true) : Tame op.go :=
  ⟨h, fun _ => trivial⟩

theorem quiet_go {op : Op} (h : op.Quiet) : Quiet op.go :=
  ⟨h, fun _ => trivial⟩

/-- Such an operation, which writes only under session `a`. -/
def Op.tends (a : String) : Op → Bool
  | .write (.stop ev _) => ev.sessionId == a
  | .write (.ingest sessionId ..) | .write (.queue sessionId _) =>
      sessionId == a
  | op => op.tame

/-- What writes under one session only is tame. -/
theorem Op.tame_of_tends {a : String} {op : Op} (h : op.tends a = true) :
    op.tame = true := by
  cases op with
  | write x => cases x <;> first | rfl | exact h
  | _ => exact h

/-- A program of such operations. -/
abbrev Tends {α : Type} (a : String) (p : Handler α) : Prop :=
  p.Every fun op => op.tends a = true

theorem Tends.tame {α : Type} {a : String} {p : Handler α}
    (h : Tends a p) : Tame p :=
  Prog.Every.mono (fun _ => Op.tame_of_tends) h

theorem tends_go {a : String} {op : Op} (h : op.tends a = true) :
    Tends a op.go :=
  ⟨h, fun _ => trivial⟩

/-- The transcript of an event is recorded under its session. -/
theorem tends_ingestTranscript (ev : Event) :
    Tends ev.sessionId (ingestTranscript ev) := by
  unfold ingestTranscript
  split
  · trivial
  · refine (tends_go rfl).bind fun session => ?_
    split
    · refine (tends_go rfl).bind fun delta => ?_
      split
      · exact (tends_go rfl).bind fun t =>
          (tends_go (beq_self_eq_true _)).bind fun _ => trivial
      · trivial
    · trivial

/-- What the selection loop does: it only looks. -/
def Op.chooses : Op → Bool
  | .readFork _ | .tagThrottled .. | .isLatched .. => true
  | _ => false

/-- A program of such operations. -/
abbrev Chooses {α : Type} (p : Handler α) : Prop :=
  p.Every fun op => op.chooses = true

theorem chooses_go {op : Op} (h : op.chooses = true) : Chooses op.go :=
  ⟨h, fun _ => trivial⟩

private theorem chooses_considerLatch (session : SessionRow)
    (entry : RosterEntry) (fork : ForkDef) (trigger : ForkRunOn) :
    Chooses (considerLatch session entry fork trigger) := by
  unfold considerLatch
  split
  · trivial
  · refine (chooses_go rfl).bind fun latched => ?_
    split <;> trivial

/-- Of a fork its file, its tag throttle and its latch are looked at. -/
theorem chooses_considerFork (session : SessionRow) (cfg : Config)
    (moments : List ForkMoment) (t : Int) (entry : RosterEntry) :
    Chooses (considerFork session cfg moments t entry) := by
  refine (chooses_go rfl).bind fun fork => ?_
  split
  · split
    · trivial
    · split
      · exact chooses_considerLatch ..
      · refine (chooses_go rfl).bind fun throttled => ?_
        split
        · trivial
        · exact chooses_considerLatch ..
  · trivial

theorem chooses_considerAll (session : SessionRow) (cfg : Config)
    (moments : List ForkMoment) (t : Int) (roster : List RosterEntry) :
    Chooses (considerAll session cfg moments t roster) := by
  induction roster with
  | nil => trivial
  | cons entry roster ih =>
      exact (chooses_considerFork ..).bind fun _ => ih.bind fun _ => trivial

theorem Op.tends_of_chooses {a : String} {op : Op} (h : op.chooses = true) :
    op.tends a = true := by
  cases op <;> first | rfl | cases h

/-- A selection queues forks for its session, and otherwise looks. -/
theorem tends_selectForks (session : SessionRow) (cfg : Config)
    (moments : List ForkMoment) :
    Tends session.sessionId (selectForks session cfg moments) := by
  refine Prog.Every.bind ?_ fun _ => (tends_go rfl).bind fun roster =>
    (tends_go rfl).bind fun t =>
      (chooses_considerAll ..).mono fun _ => Op.tends_of_chooses
  exact (tends_go rfl).bind fun entries => tends_go (beq_self_eq_true _)

theorem tends_dueNow (w : Watch) : Tends w.session.sessionId (dueNow w) := by
  refine (tends_go rfl).bind fun t => ?_
  split
  · trivial
  · exact (tends_selectForks ..).bind fun _ => trivial

theorem tame_ingestTranscript (ev : Event) : Tame (ingestTranscript ev) :=
  (tends_ingestTranscript ev).tame

theorem tame_selectForks (session : SessionRow) (cfg : Config)
    (moments : List ForkMoment) : Tame (selectForks session cfg moments) :=
  (tends_selectForks session cfg moments).tame

theorem tame_dueNow (w : Watch) : Tame (dueNow w) := (tends_dueNow w).tame

/-- What is done to tell what a prompt is. -/
def Op.sifts : Op → Bool
  | .write (.ingest ..) | .write (.classify ..) => true
  | .now | .getSession _ | .readDelta .. | .recentlyWoke .. => true
  | _ => false

/-- A program of such operations. -/
abbrev Sifts {α : Type} (p : Handler α) : Prop :=
  p.Every fun op => op.sifts = true

theorem sifts_go {op : Op} (h : op.sifts = true) : Sifts op.go :=
  ⟨h, fun _ => trivial⟩

theorem sifts_ingestTranscript (ev : Event) : Sifts (ingestTranscript ev) := by
  unfold ingestTranscript
  split
  · trivial
  · refine (sifts_go rfl).bind fun session => ?_
    split
    · refine (sifts_go rfl).bind fun delta => ?_
      split
      · exact (sifts_go rfl).bind fun t => (sifts_go rfl).bind fun _ => trivial
      · trivial
    · trivial

/-- What a prompt is, is told from the transcript, the spawns and the
last wake. -/
theorem sifts_classifyPrompt (ev : Event) (t : Int) :
    Sifts (classifyPrompt ev t) := by
  have hrecent : Sifts (do
      let recent ← (Op.recentlyWoke ev.sessionId t).go
      pure (!recent)) := (sifts_go rfl).bind fun recent => trivial
  unfold classifyPrompt
  -- a notification is told by its ids, and first by what is read
  split
  · refine (sifts_ingestTranscript ev).bind fun _ =>
      (sifts_go rfl).bind fun matched => ?_
    split
    · trivial
    · exact hrecent
  · split
    · trivial
    · exact hrecent

theorem Sifts.quiet {α : Type} {p : Handler α} (h : Sifts p) : Quiet p := by
  refine Prog.Every.mono (fun op hop => ?_) h
  cases op with
  | write x => cases x <;> first | exact ⟨rfl, rfl⟩ | cases hop
  | _ => first | exact ⟨rfl, rfl⟩ | cases hop

theorem quiet_classifyPrompt (ev : Event) (t : Int) :
    Quiet (classifyPrompt ev t) :=
  (sifts_classifyPrompt ev t).quiet

/-- The handler of an event neither wakes nor awaits. -/
theorem quiet_handleEvent (ev : Event) : Quiet (handleEvent ev) := by
  refine (quiet_go ⟨rfl, rfl⟩).bind fun _ => (quiet_go ⟨rfl, rfl⟩).bind fun t => ?_
  -- a start, a prompt, an end; a Stop that does not wait does nothing
  split
  · exact (quiet_go ⟨rfl, rfl⟩).bind fun _ => trivial
  · exact (quiet_classifyPrompt ev t).bind fun waking =>
      (quiet_go ⟨rfl, rfl⟩).bind fun _ => (quiet_go ⟨rfl, rfl⟩).bind fun _ => trivial
  · exact (quiet_go ⟨rfl, rfl⟩).bind fun _ => (quiet_go ⟨rfl, rfl⟩).bind fun _ => trivial
  · trivial

/-- An operation that neither awaits nor looks at a session, and writes
only to close some. -/
def Op.shuts : Op → Bool
  | .write x => x.closes
  | .select _ | .getSession _ | .readDelta .. => false
  | _ => true

/-- Such an operation is quiet. -/
theorem Op.quiet_of_shuts {op : Op} (h : op.shuts = true) : op.Quiet := by
  cases op with
  | write x => cases x <;> first | exact ⟨rfl, rfl⟩ | cases h
  | select sleepSecs => cases h
  | _ => exact ⟨rfl, rfl⟩

/-- A program of such operations. -/
abbrev Shuts {α : Type} (p : Handler α) : Prop :=
  p.Every fun op => op.shuts = true

theorem Shuts.quiet {α : Type} {p : Handler α} (h : Shuts p) : Quiet p :=
  Prog.Every.mono (fun _ => Op.quiet_of_shuts) h

theorem shuts_go {op : Op} (h : op.shuts = true) : Shuts op.go :=
  ⟨h, fun _ => trivial⟩

/-- A lost poll files a pending close, and closes nothing itself. -/
theorem shuts_onPollLost (sessionId : String) (parked : Bool) :
    Shuts (onPollLost sessionId parked) := by
  refine (shuts_go rfl).bind fun gen => (shuts_go rfl).bind fun _ =>
    (shuts_go rfl).bind fun _ => ?_
  split
  · exact (shuts_go rfl).bind fun _ => trivial
  · trivial

theorem shuts_closeAll (sessions : List String) : Shuts (closeAll sessions) := by
  induction sessions with
  | nil => trivial
  | cons sessionId rest ih => exact (shuts_go rfl).bind fun _ => ih

/-- A grace timer closes its session, if it is still due. -/
theorem shuts_graceClose (sessionId : String) (gen : Nat) :
    Shuts (graceClose sessionId gen) := by
  refine (shuts_go rfl).bind fun due => ?_
  split
  · exact (shuts_go rfl).bind fun _ => trivial
  · trivial

theorem shuts_handlePrune : Shuts handlePrune :=
  (shuts_go rfl).bind fun _ => (shuts_go rfl).bind fun _ => trivial

/-- The session reaper closes sessions, one after the other. -/
theorem shuts_sessionReaper : Shuts sessionReaper :=
  (shuts_go rfl).bind fun cutoffs => shuts_closeAll cutoffs

theorem quiet_onPollLost (sessionId : String) (parked : Bool) :
    Quiet (onPollLost sessionId parked) :=
  (shuts_onPollLost sessionId parked).quiet

theorem quiet_graceClose (sessionId : String) (gen : Nat) :
    Quiet (graceClose sessionId gen) :=
  (shuts_graceClose sessionId gen).quiet

theorem quiet_handlePrune : Quiet handlePrune := shuts_handlePrune.quiet

theorem quiet_sessionReaper : Quiet sessionReaper := shuts_sessionReaper.quiet

-- ============================================================= no wakes

/-- An answer that wakes. -/
def IsWake (body : ResponseBody) : Prop := ∃ payload, body = .wake payload

/-- No event is answered with a wake. -/
theorem returns_handleEvent (ev : Event) :
    (handleEvent ev).Returns fun body => ¬IsWake body := by
  have hack : ¬IsWake .ack := fun ⟨payload, h⟩ => by cases h
  refine Prog.Returns.after fun _ => Prog.Returns.after fun t => ?_
  -- a start, a prompt, an end, a Stop that does not wait
  split
  · exact Prog.Returns.after fun _ => hack
  · exact Prog.Returns.after fun waking => Prog.Returns.after fun _ =>
      Prog.Returns.after fun _ => hack
  · exact Prog.Returns.after fun _ => Prog.Returns.after fun _ => hack
  · exact hack

theorem returns_handlePrune :
    handlePrune.Returns fun body => ¬IsWake body :=
  Prog.Returns.after fun t => Prog.Returns.after fun stale =>
    fun ⟨payload, h⟩ => by cases h

/-- Nor does the reaper return one. -/
theorem returns_closeAll (sessions : List String) :
    (closeAll sessions).Returns fun body => ¬IsWake body := by
  induction sessions with
  | nil => exact fun ⟨payload, h⟩ => by cases h
  | cons sessionId rest ih => exact Prog.Returns.after fun _ => ih

/-- Nor does a grace timer. -/
theorem returns_graceClose (sessionId : String) (gen : Nat) :
    (graceClose sessionId gen).Returns fun body => ¬IsWake body := by
  have hack : ¬IsWake .ack := fun ⟨payload, h⟩ => by cases h
  refine Prog.Returns.after fun due => ?_
  split
  · exact Prog.Returns.after fun _ => hack
  · exact hack

-- =============================================================== polls

/-- What a poll does once it knows its deadlines: select, wait and
stamp. -/
def Op.attends : Op → Bool
  | .write (.queue ..) | .write (.stamp ..) => true
  | .now | .discover _ | .readFork _ | .roster _ | .tagThrottled ..
  | .isLatched .. | .noteWakeIssued _ | .select _ => true
  | _ => false

/-- A program of such operations. -/
abbrev Attends {α : Type} (p : Handler α) : Prop :=
  p.Every fun op => op.attends = true

theorem attends_go {op : Op} (h : op.attends = true) : Attends op.go :=
  ⟨h, fun _ => trivial⟩

theorem Chooses.attends {α : Type} {p : Handler α} (h : Chooses p) :
    Attends p := by
  refine Prog.Every.mono (fun op hop => ?_) h
  cases op <;> first | rfl | cases hop

/-- A selection is part of what a poll does at its deadlines. -/
theorem attends_selectForks (session : SessionRow) (cfg : Config)
    (moments : List ForkMoment) :
    Attends (selectForks session cfg moments) := by
  refine Prog.Every.bind ?_ fun _ => (attends_go rfl).bind fun roster =>
    (attends_go rfl).bind fun t => (chooses_considerAll ..).attends
  -- the roster is refreshed first
  exact (attends_go rfl).bind fun entries => attends_go rfl

theorem attends_dueNow (w : Watch) : Attends (dueNow w) := by
  refine (attends_go rfl).bind fun t => ?_
  split
  · trivial
  · exact (attends_selectForks ..).bind fun _ => trivial

/-- So is the stamping. -/
theorem attends_buildWake (session : SessionRow)
    (selected : List SelectedFork) :
    Attends (buildWake session selected) := by
  unfold buildWake
  split
  · trivial
  · exact (attends_go rfl).bind fun t => (attends_go rfl).bind fun _ =>
      (attends_go rfl).bind fun _ => trivial

theorem attends_parkForever : Attends parkForever :=
  (attends_go rfl).bind fun _ => trivial

theorem attends_issueWake (w : Watch) : Attends (issueWake w) := by
  refine (attends_go rfl).bind fun t => (attends_selectForks ..).bind fun selected =>
    (attends_buildWake ..).bind fun payload => ?_
  split
  · trivial
  · exact attends_parkForever

theorem attends_debounceWake (w : Watch) : Attends (debounceWake w) := by
  unfold debounceWake
  split
  · refine (attends_go rfl).bind fun branch => ?_
    split
    · exact attends_issueWake w
    · trivial
  · exact attends_issueWake w

/-- A poll that serves its deadlines selects, waits and stamps. -/
theorem attends_serveDeadlines (w : Watch) (deadlines : List Nat) :
    Attends (serveDeadlines w deadlines) := by
  induction deadlines with
  | nil => exact attends_parkForever
  | cons d rest ih =>
      -- the clock, and the await up to the deadline
      refine (attends_go rfl).bind fun t => (attends_go rfl).bind fun branch => ?_
      split
      · refine (attends_dueNow w).bind fun due => ?_
        split
        · exact attends_debounceWake w
        · exact ih
      · trivial

/-- So does one that looks first whether something is due. -/
theorem attends_awaitDue (w : Watch) : Attends (awaitDue w) := by
  refine (attends_dueNow w).bind fun due => ?_
  split
  · exact attends_debounceWake w
  · exact attends_serveDeadlines w w.deadlines

/-- What a poll does once it is registered. -/
def Op.polls : Op → Bool
  | .write (.release ..) | .snapshot _ | .releasable _ => true
  | op => op.attends

/-- A program of such operations. -/
abbrev Polls {α : Type} (p : Handler α) : Prop :=
  p.Every fun op => op.polls = true

theorem polls_go {op : Op} (h : op.polls = true) : Polls op.go :=
  ⟨h, fun _ => trivial⟩

/-- What a poll does at its deadlines it does once it is registered. -/
theorem Attends.polls {α : Type} {p : Handler α} (h : Attends p) :
    Polls p := by
  refine Prog.Every.mono (fun op hop => ?_) h
  cases op with
  | write x => cases x <;> first | rfl | cases hop
  | _ => first | rfl | cases hop

/-- Only releasing lists and deletes dependents. -/
theorem polls_releaseDue (session : SessionRow) :
    Polls (releaseDue session) := by
  refine (polls_go rfl).bind fun released => ?_
  split
  · trivial
  · exact (polls_go rfl).bind fun _ => (polls_go rfl).bind fun _ => trivial

/-- A registered poll takes its row, releases, and then attends. -/
theorem polls_parkedPoll (ev : Event) (t : Int) (promptTokens : Option Nat)
    (cfg : Config) : Polls (parkedPoll ev t promptTokens cfg) := by
  refine (polls_go rfl).bind fun session => ?_
  -- without a row the poll is over
  split
  · refine (polls_releaseDue _).bind fun payload => ?_
    split
    · trivial
    · exact (polls_go rfl).bind fun entries => (attends_awaitDue _).polls
  · trivial

-- ======================================================= blind programs

/-- An operation by which a transcript is read, and what was read
recorded. -/
def Op.reads : Op → Bool
  | .getSession _ | .readDelta .. | .write (.ingest ..) => true
  | _ => false

/-- A program that reads no transcript. -/
abbrev Blind {α : Type} (p : Handler α) : Prop :=
  p.Every fun op => op.reads = false

theorem blind_go {op : Op} (h : op.reads = false) : Blind op.go :=
  ⟨h, fun _ => trivial⟩

/-- What closes sessions reads no transcript. -/
theorem Shuts.blind {α : Type} {p : Handler α} (h : Shuts p) : Blind p := by
  refine Prog.Every.mono (fun op hop => ?_) h
  cases op with
  | write x => cases x <;> first | rfl | cases hop
  | _ => first | rfl | cases hop

/-- A registered poll reads its transcript no more. -/
theorem Polls.blind {α : Type} {p : Handler α} (h : Polls p) : Blind p := by
  refine Prog.Every.mono (fun op hop => ?_) h
  cases op with
  | write x => cases x <;> first | rfl | cases hop
  | _ => first | rfl | cases hop

-- =========================================================== the choice

/-- A fork as a selection for `session` over `moments` describes it. -/
def Chosen (session : SessionRow) (cfg : Config)
    (moments : List ForkMoment) (x : SelectedFork) : Prop :=
  ∃ entry fork trigger,
    FirstMatch fork.runOn moments cfg.defaultIdleDeadlineSecs trigger
      ∧ x = mkSelected session entry fork trigger

/-- The trigger a fork is due by is the first that matches. -/
theorem firstMatch_of_dueBy {session : SessionRow} {cfg : Config}
    {moments : List ForkMoment} {t : Int} {entry : RosterEntry}
    {fork : ForkDef} {trigger : ForkRunOn}
    (h : dueBy session cfg moments t entry fork = some trigger) :
    FirstMatch fork.runOn moments cfg.defaultIdleDeadlineSecs trigger := by
  unfold dueBy at h
  split at h
  · cases h
  · split at h
    · cases h
    next trigger' hmatch =>
      split at h
      · cases h
      · rw [← Option.some.inj h]
        exact matchMoments_eq_some_iff.1 hmatch

/-- A fork whose latch is free is chosen as it was found due. -/
private theorem returns_considerLatch {session : SessionRow} {cfg : Config}
    {moments : List ForkMoment} {entry : RosterEntry} {fork : ForkDef}
    {trigger : ForkRunOn} (h : FirstMatch fork.runOn moments
      cfg.defaultIdleDeadlineSecs trigger) :
    (considerLatch session entry fork trigger).Returns
      fun sel => ∀ x ∈ sel, Chosen session cfg moments x := by
  have hchosen : ∀ x ∈ some (mkSelected session entry fork trigger),
      Chosen session cfg moments x := by
    intro x hx
    exact ⟨entry, fork, trigger, h, (Option.some.inj hx).symm⟩
  unfold considerLatch
  split
  · exact hchosen
  · refine Prog.Returns.after fun latched => ?_
    split
    · exact fun x hx => by cases hx
    · exact hchosen

/-- What comes of a fork is chosen by its own triggers. -/
private theorem returns_considerFork (session : SessionRow) (cfg : Config)
    (moments : List ForkMoment) (t : Int) (entry : RosterEntry) :
    (considerFork session cfg moments t entry).Returns
      fun sel => ∀ x ∈ sel, Chosen session cfg moments x := by
  have hnone : ∀ x ∈ (none : Option SelectedFork),
      Chosen session cfg moments x := fun x hx => by cases hx
  refine Prog.Returns.after fun fork => ?_
  -- a file that is gone, a fork not due, one whose tags rest
  split
  · split
    · exact hnone
    next trigger hdue =>
      have hlatch := @returns_considerLatch session cfg moments entry _ trigger
        (firstMatch_of_dueBy hdue)
      split
      · exact hlatch
      · refine Prog.Returns.after fun throttled => ?_
        split
        · exact hnone
        · exact hlatch
  · exact hnone

/-- A selection returns what it has chosen. -/
theorem returns_selectForks (session : SessionRow) (cfg : Config)
    (moments : List ForkMoment) :
    (selectForks session cfg moments).Returns
      fun selected => ∀ x ∈ selected, Chosen session cfg moments x := by
  refine Prog.Returns.after fun _ => Prog.Returns.after fun roster =>
    Prog.Returns.after fun t => ?_
  induction roster with
  | nil => exact fun x hx => by cases hx
  | cons entry roster ih =>
      show Prog.Returns _ (considerFork session cfg moments t entry >>=
        fun sel => considerAll session cfg moments t roster >>=
          fun rest => pure (sel.toList ++ rest))
      refine (returns_considerFork session cfg moments t entry).bind
        fun sel hsel => ih.bind fun rest hrest x hx => ?_
      rcases List.mem_append.1 hx with hx | hx
      · exact hsel x (by simpa using hx)
      · exact hrest x hx

-- ========================================================= from await on

section poll

variable {D : Prog.Discipline Op Obs} {C : Prog.Contract Op Op.Res Obs}
  {R : List Obs → ResponseBody → Prop} {B : List Obs → Prop}
  {T : Int → List Obs → Prop} {w : Watch}

/-- An assertion that the quiet operations preserve, and that survives
where they yield. -/
structure Carried (D : Prog.Discipline Op Obs)
    (C : Prog.Contract Op Op.Res Obs) (B : List Obs → Prop) : Prop where
  perform : ∀ l op, op.Quiet → B l → C.pre l op ∧ ∀ r l', l <:+ l' →
    C.post l op r l' → B l'
  yield : ∀ l op, op.Quiet → D.yields op = true → B l →
    D.inv l ∧ ∀ l₁, l <:+ l₁ → D.inv l₁ → B l₁

/-- A quiet program carries it along. -/
theorem Carried.outline (h : Carried D C B) {α : Type} {p : Handler α}
    (hp : Quiet p) {Q : α → Prop} (hq : p.Returns Q) {l : List Obs}
    (hl : B l) : Prog.Outline D C (fun l a => B l ∧ Q a) p l :=
  hp.outline h.perform h.yield hq hl

/-- What comes after a quiet program. -/
theorem Carried.then (h : Carried D C B) {α β : Type}
    {R : List Obs → β → Prop} {p : Handler α} (hp : Quiet p)
    {f : α → Handler β} {l : List Obs} (hl : B l)
    (hf : ∀ a l', B l' → Prog.Outline D C R (f a) l') :
    Prog.Outline D C R (p >>= f) l :=
  (h.outline hp (Prog.returns_true p) hl).bind fun l' a _ ha => hf a l' ha.1

/-- What a poll of the watch has to do right: keep the assertion
between awaits and past a timer, and answer as promised. -/
structure Serves (D : Prog.Discipline Op Obs)
    (C : Prog.Contract Op Op.Res Obs) (R : List Obs → ResponseBody → Prop)
    (B : List Obs → Prop) (T : Int → List Obs → Prop) (w : Watch) :
    Prop where
  carried : Carried D C B
  waited : ∀ l, B l → R l .waited
  /-- The clock is read. -/
  clock : ∀ l, B l → Prog.Outline D C (fun l t => B l ∧ T t l) Op.now.go l
  stays : ∀ t, Prog.Stable (T t)
  await : ∀ l sleepSecs, B l → Prog.Outline D C
    (fun l branch => if branch = .timer then B l else R l .waited)
    (Op.select sleepSecs).go l
  wake : ∀ t selected l, B l → T t l →
    (∀ x ∈ selected, Chosen w.session w.cfg (w.moments t) x) →
    Prog.Outline D C (fun l r => match r with
      | some payload => R l (.wake payload)
      | none => B l) (buildWake w.session selected) l

variable (h : Serves D C R B T w)
include h

/-- A poll with nothing due stays at an await until it is told. -/
private theorem park_outline {l : List Obs} (hl : B l) :
    Prog.Outline D C R parkForever l := by
  refine (h.await l none hl).bind fun l' branch _ hb => ?_
  split at hb
  · exact h.waited l' hb
  · exact hb

/-- What is selected at one reading of the clock is stamped, or the poll
parks. -/
private theorem issueWake_outline {l : List Obs} (hl : B l) :
    Prog.Outline D C R (issueWake w) l := by
  refine (h.clock l hl).bind fun l t _ hl => ?_
  -- the reading of the clock is carried along with the assertion
  have hcarried : Carried D C fun l => B l ∧ T t l :=
    ⟨fun l op hop hl => ⟨(h.carried.perform l op hop hl.1).1, fun r l' hs hpost =>
        ⟨(h.carried.perform l op hop hl.1).2 r l' hs hpost, h.stays t hs hl.2⟩⟩,
      fun l op hop hy hl => ⟨(h.carried.yield l op hop hy hl.1).1, fun l₁ hs hinv =>
        ⟨(h.carried.yield l op hop hy hl.1).2 l₁ hs hinv, h.stays t hs hl.2⟩⟩⟩
  refine (hcarried.outline (tame_selectForks ..).quiet
    (returns_selectForks w.session w.cfg (w.moments t)) hl).bind
    fun l selected _ ⟨⟨hB, hT⟩, hsel⟩ => ?_
  refine (h.wake t selected l hB hT hsel).bind fun l r _ hr => ?_
  cases r with
  | none => exact park_outline h hr
  | some payload => exact hr

private theorem debounceWake_outline {l : List Obs} (hl : B l) :
    Prog.Outline D C R (debounceWake w) l := by
  unfold debounceWake
  split
  · refine (h.await l _ hl).bind fun l branch _ hb => ?_
    cases branch with
    | timer => exact issueWake_outline h hb
    | cancelled => exact hb
    | shutdown => exact hb
  · exact issueWake_outline h hl

/-- The deadlines are served one after the other: an await for each, and a
look at what is due after its timer. -/
private theorem serveDeadlines_outline (deadlines : List Nat) {l : List Obs}
    (hl : B l) : Prog.Outline D C R (serveDeadlines w deadlines) l := by
  induction deadlines generalizing l with
  | nil => exact park_outline h hl
  | cons d rest ih =>
      refine (h.clock l hl).bind fun l t _ hl => ?_
      -- after the timer it looks; otherwise it has waited
      refine (h.await l _ hl.1).bind fun l branch _ hb => ?_
      cases branch with
      | timer =>
          refine h.carried.then (tame_dueNow w).quiet hb fun due l hl => ?_
          cases due with
          | true => exact debounceWake_outline h hl
          | false => exact ih hl
      | cancelled => exact hb
      | shutdown => exact hb

/-- A poll that has its session keeps to the contract. -/
theorem awaitDue_outline {l : List Obs} (hl : B l) :
    Prog.Outline D C R (awaitDue w) l := by
  refine h.carried.then (tame_dueNow w).quiet hl fun due l hl => ?_
  cases due with
  | true => exact debounceWake_outline h hl
  | false => exact serveDeadlines_outline h w.deadlines hl

end poll

-- =================================================== a whole poll, freely

section free

variable {C : Prog.Contract Op Op.Res Obs}
  {R : List Obs → ResponseBody → Prop} {B : SessionRow → List Obs → Prop}

/-- In the free discipline a stable assertion is carried as soon as
quiet operations are free to run. -/
theorem carried_free {B : List Obs → Prop} (hB : Prog.Stable B)
    (hpre : ∀ l op, op.wakes = false → C.pre l op) :
    Carried .free C B where
  perform l op hop hl := ⟨hpre l op hop.1, fun _ _ hs _ => hB hs hl⟩
  yield _ _ _ _ hl := ⟨trivial, fun _ hs _ => hB hs hl⟩

/-- A poll keeps to a contract in the free discipline, if whatever it
has learned of its session lets it stamp and release. -/
theorem handleStopWait_outline (hB : ∀ session, Prog.Stable (B session))
    (hR : ∀ body, Prog.Stable (R · body)) (hwaited : ∀ l, R l .waited)
    (hpre : ∀ l op, op.wakes = false → C.pre l op) (ev : Event)
    (hsnapshot : ∀ l (r : Option SessionRow) l',
      C.post l (.snapshot ev.sessionId) r l' →
      ∀ session, r = some session → B session l')
    (hrelease : ∀ session l, B session l → Prog.Outline .free C
      (fun l r => ∀ payload, r = some payload → R l (.wake payload))
      (releaseDue session) l)
    (hwake : ∀ session cfg moments selected l, B session l →
      (∀ x ∈ selected, Chosen session cfg moments x) →
      Prog.Outline .free C
        (fun l r => ∀ payload, r = some payload → R l (.wake payload))
        (buildWake session selected) l)
    (l : List Obs) : Prog.Outline .free C R (handleStopWait ev) l := by
  have htrue : Carried .free C fun _ => True :=
    carried_free (fun _ _ _ _ => trivial) hpre
  refine htrue.then (quiet_go ⟨rfl, rfl⟩) trivial fun _ l _ =>
    htrue.then (quiet_go ⟨rfl, rfl⟩) trivial fun t l _ =>
    htrue.then (quiet_go ⟨rfl, rfl⟩) trivial fun _ l _ =>
    htrue.then (tame_ingestTranscript ev).quiet trivial fun promptTokens l _ =>
    htrue.then (quiet_go ⟨rfl, rfl⟩) trivial fun cfg l _ =>
    htrue.then (quiet_go ⟨rfl, rfl⟩) trivial fun _ l _ =>
    htrue.then (quiet_go ⟨rfl, rfl⟩) trivial fun _ l _ => ?_
  have hbody : Prog.Outline .free C R (parkedPoll ev t promptTokens cfg) l := by
    refine ⟨fun _ => trivial, fun l₁ _ => ⟨hpre _ _ rfl, fun r l hs hpost => ?_⟩⟩
    cases r with
    | none => exact hwaited l
    | some session =>
        have hl : B session l := hsnapshot _ _ _ hpost session rfl
        refine (hrelease session l hl).bind fun l' r hs hr => ?_
        have hl' := hB session hs hl
        cases r with
        | some payload => exact hr payload rfl
        | none =>
            refine (carried_free (hB session) hpre).then (quiet_go ⟨rfl, rfl⟩) hl'
              fun entries l hl => awaitDue_outline (T := fun _ _ => True) ?_ hl
            exact {
              carried := carried_free (hB session) hpre
              waited := fun l _ => hwaited l
              clock := fun l hl => (carried_free (hB session) hpre).outline
                (Q := fun _ => True) (quiet_go ⟨rfl, rfl⟩) (Prog.returns_true _) hl
              stays := fun _ _ _ _ _ => trivial
              await := fun l sleepSecs hl => ⟨fun _ => trivial, fun l₁ hd =>
                ⟨hpre _ _ rfl, fun branch l' hs _ => by
                  show if branch = Branch.timer then B session l' else _
                  split
                  · exact hB session (hd.suffix.trans hs) hl
                  · exact hwaited l'⟩⟩
              wake := fun t selected l hl _ hsel => by
                refine (hwake session cfg _ selected l hl hsel).mono
                  fun l' r hs hr => ?_
                cases r with
                | none => exact hB session hs hl
                | some payload => exact hr payload rfl }
  refine hbody.bind fun l' body _ hb => ⟨fun _ => trivial, fun l₁ hd =>
    ⟨hpre _ _ rfl, fun r l'' hs _ => hR body (hd.suffix.trans hs) hb⟩⟩

/-- A quiet program keeps to such a contract. -/
theorem Quiet.outline_free {α : Type} {p : Handler α} (hp : Quiet p)
    (hpre : ∀ l op, op.wakes = false → C.pre l op) (l : List Obs) :
    Prog.Outline .free C (fun _ _ => True) p l :=
  ((carried_free (B := fun _ => True) (fun _ _ _ _ => trivial) hpre).outline hp
    (Prog.returns_true p) trivial).mono fun _ _ _ _ => trivial

/-- An issuance keeps to the contract if its stamping may happen. -/
theorem buildWake_outline_free {B : List Obs → Prop} (hB : Prog.Stable B)
    (hpre : ∀ l op, op.wakes = false → C.pre l op) {session : SessionRow}
    {selected : List SelectedFork}
    (hstamp : ∀ t l, B l → selected ≠ [] →
      C.pre l (.write (.stamp session selected t)))
    {l : List Obs} (hl : B l) :
    Prog.Outline .free C (fun _ _ => True) (buildWake session selected) l := by
  unfold buildWake
  split
  · trivial
  next hne =>
    refine ⟨fun _ => trivial, fun l₁ hd => ⟨hpre _ _ rfl, fun t l₂ hs₁ _ => ?_⟩⟩
    refine ⟨fun _ => trivial, fun l₃ hd₂ => ⟨hstamp t l₃
      (hB ((hd.suffix.trans hs₁).trans hd₂.suffix) hl) (by simpa using hne),
      fun _ _ _ _ => ?_⟩⟩
    exact ⟨fun _ => trivial, fun _ _ => ⟨hpre _ _ rfl, fun _ _ _ _ => trivial⟩⟩

/-- Every handler keeps to a contract that binds polls only, and those
at what they stamp and release. -/
theorem handler_outline_free (hB : ∀ session, Prog.Stable (B session))
    (hpre : ∀ l op, op.wakes = false → C.pre l op)
    (hsnapshot : ∀ a l (r : Option SessionRow) l', C.post l (.snapshot a) r l' →
      ∀ session, r = some session → B session l')
    (hrelease : ∀ session l, B session l → Prog.Outline .free C
      (fun _ _ => True) (releaseDue session) l)
    (hstamp : ∀ session cfg moments selected t l, B session l →
      selected ≠ [] → (∀ x ∈ selected, Chosen session cfg moments x) →
      C.pre l (.write (.stamp session selected t)))
    (job : Job) (l : List Obs) :
    Prog.Outline .free C (fun _ _ => True) job.handler l := by
  cases job with
  | request req =>
      cases req with
      | stopWait ev =>
          exact handleStopWait_outline hB (fun _ _ _ _ _ => trivial)
            (fun _ => trivial) hpre ev (hsnapshot _)
            (fun session l hl => (hrelease session l hl).mono
              fun _ _ _ _ _ _ => trivial)
            (fun session cfg moments selected l hl hsel =>
              (buildWake_outline_free (hB session) hpre
                (fun t l hl hne => hstamp session cfg moments selected t l hl
                  hne hsel) hl).mono fun _ _ _ _ _ _ => trivial) l
      | event ev => exact (quiet_handleEvent ev).outline_free hpre l
      | prune => exact quiet_handlePrune.outline_free hpre l
  | reap => exact quiet_sessionReaper.outline_free hpre l
  | grace sessionId gen => exact (quiet_graceClose ..).outline_free hpre l

namespace World

variable {C : Nat → Prog.Contract Op Op.Res Obs}
  {R : Nat → Job → List Obs → ResponseBody → Prop} {w : World}

/-- A handler's outline in the free discipline, as a world keeps it. -/
private theorem outline_free_inv {k : Nat} {job : Job} {l : List Obs}
    (h : Prog.Outline .free (C k) (R k job) job.handler l) :
    Prog.Outline .free (C k) (fun l body =>
      (.free : Prog.Discipline Op Obs).inv l ∧ R k job l body) job.handler l :=
  h.mono fun _ _ _ hr => ⟨trivial, hr⟩

/-- In the free discipline every task may be interrupted anywhere. -/
theorem yielding_free (w : World) (j : Nat) :
    w.yielding (.free : Prog.Discipline Op Obs).yields j = true := by
  unfold yielding
  split <;> rfl

/-- The next operation of a handler meets its contract, whatever others
have logged meanwhile. -/
theorem Outlined.next_free (h : w.Outlined .free C R) {k : Nat}
    {task : Task} {op : Op} {f : op.Res → Handler ResponseBody}
    (ht : w.tasks k = some task) (hprog : task.prog = .call op f)
    (hstart : ∀ l, Prog.Outline .free (C k) (R k task.job)
      task.job.handler l) :
    (C k).pre w.daemon.log op ∧ ∀ r l', w.daemon.log <:+ l' →
      (C k).post w.daemon.log op r l' →
      Prog.Outline .free (C k) (fun l body => (.free : Prog.Discipline Op Obs).inv l
        ∧ (task.client = true → R k task.job l body)) (f r) l' :=
  h.next ht hprog (fun j _ => w.yielding_free j)
    fun _ _ => outline_free_inv (hstart _)

/-- The rule for outlines in the free discipline. -/
theorem Outlined.step_free {a : Act} (h : w.Outlined .free C R)
    (hpre : ∀ k l op, op.wakes = false → (C k).pre l op)
    (hstart : ∀ k task, w.tasks k = some task → ∀ l,
      Prog.Outline .free (C k) (R k task.job) task.job.handler l)
    (hpost : ∀ k op tick d r, a = .move k tick → w.about k = some op →
      exec k op tick w.daemon = some (d, r) →
      (C k).post w.daemon.log op r d.log) :
    (w.step a).Outlined .free C R :=
  outlined_step (fun _ _ j _ => w.yielding_free j)
    (fun k task ht _ _ => outline_free_inv (hstart k task ht _))
    (fun k _ _ l _ => ((quiet_onPollLost ..).outline_free (hpre k) l).mono
      fun _ _ _ _ => trivial)
    (fun _ _ _ _ => trivial) hpost (fun _ _ => rfl) h

end World

end free

end Autofork
