/-
Every handler minds its own session.

What a handler of session `a` changes is filed under `a`: it keeps to
`within a`. Run on two daemons it goes along with itself
(`Within.alongside`), operation by operation, as long as the two give it
results that are the same. All they need not agree on are the numbers
they hand out across sessions: close generations, and the numbers of
issuances.
-/
import Autofork.Lib.Paired
import Autofork.Proofs.Congruence
import Autofork.System

namespace Autofork

open Lib

-- ======================================================= one's own session

/-- The operation changes nothing of any session but `a`. -/
def Op.minds (a : String) : Op → Bool
  | .write x => x.about == some a
  | .getSession b | .snapshot b | .roster b | .isLatched b .. | .releasable b
  | .clearPendingClose b | .insertPendingClose b _ | .takePendingClose b _
  | .spawnGrace b _ | .register b | .cancelWait b | .park b | .unpark b
  | .recentlyWoke b _ | .noteWakeIssued b => b == a
  | .timedOut => false
  | _ => true

/-- The operation knows no number that is counted across sessions, and
asks about no session but its own. -/
def Op.plain : Op → Bool
  | .nextCloseGen | .insertPendingClose .. | .takePendingClose ..
  | .spawnGrace .. | .releasable _ | .tagThrottled .. | .timedOut
  | .write (.release ..) | .write (.prune _) => false
  | _ => true

/-- A handler of session `a`; a strict one performs only plain
operations, on the understanding that no tag is throttled. -/
def within (a : String) (strict : Prop) : Prog.Typestate Op Op.Res Unit where
  ok _ op := op.minds a = true ∧ (strict → op.plain = true)
  next m _ _ := m
  valid _
    | .snapshot b, row => ∀ x, row = some x → x.sessionId = b
    | .cfgFor _, cfg => strict → cfg.tagThrottles = []
    | _, _ => True

/-- A program that keeps to `within`. -/
abbrev Within {α : Type} (a : String) (strict : Prop) (p : Handler α) : Prop :=
  p.Typed (within a strict) (fun _ _ => True) ()

section within

variable {a : String} {strict : Prop}

/-- Programs that stay within a session, one after the other. -/
private theorem Within.bind {α β : Type} {p : Handler α} {f : α → Handler β}
    (hp : Within a strict p) (hf : ∀ r, Within a strict (f r)) :
    Within a strict (p >>= f) :=
  Prog.Typed.bind hp fun _ r _ => hf r

private theorem within_go {op : Op} (hminds : op.minds a = true)
    (hplain : op.plain = true) : Within a strict op.go :=
  ⟨⟨hminds, fun _ => hplain⟩, fun _ _ => trivial⟩

/-- Only the row and the transcript of the event are read. -/
theorem within_ingestTranscript {ev : Event} (ha : ev.sessionId = a) :
    Within a strict (ingestTranscript ev) := by
  subst ha
  unfold ingestTranscript
  split
  · trivial
  · refine (within_go (beq_self_eq_true _) rfl).bind fun session => ?_
    split
    · refine (within_go rfl rfl).bind fun delta => ?_
      split
      · exact (within_go rfl rfl).bind fun t =>
          (within_go (beq_self_eq_true _) rfl).bind fun _ => trivial
      · trivial
    · trivial

/-- A latch is asked for under the session's own id. -/
theorem within_considerLatch {session : SessionRow}
    (ha : session.sessionId = a) (entry : RosterEntry) (fork : ForkDef)
    (trigger : ForkRunOn) :
    Within a strict (considerLatch session entry fork trigger) := by
  subst ha
  unfold considerLatch
  split
  · trivial
  · refine (within_go (beq_self_eq_true _) rfl).bind fun latched => ?_
    split <;> trivial

/-- Without tag throttles no fork is asked about its tags. -/
theorem within_considerFork {session : SessionRow} {cfg : Config}
    (ha : session.sessionId = a) (hcfg : strict → cfg.tagThrottles = [])
    (moments : List ForkMoment) (t : Int) (entry : RosterEntry) :
    Within a strict (considerFork session cfg moments t entry) := by
  refine (within_go rfl rfl).bind fun fork => ?_
  split
  · split
    · trivial
    · split
      · exact within_considerLatch ha ..
      next hask =>
        refine ⟨⟨rfl, fun hs => ?_⟩, fun throttled _ => ?_⟩
        · rw [hcfg hs] at hask
          simp at hask
        · show Within a strict (if throttled = true then pure none else _)
          split
          · trivial
          · exact within_considerLatch ha ..
  · trivial

theorem within_considerAll {session : SessionRow} {cfg : Config}
    (ha : session.sessionId = a) (hcfg : strict → cfg.tagThrottles = [])
    (moments : List ForkMoment) (t : Int) (roster : List RosterEntry) :
    Within a strict (considerAll session cfg moments t roster) := by
  -- one entry after the other
  induction roster with
  | nil => trivial
  | cons entry roster ih =>
      exact (within_considerFork ha hcfg ..).bind fun _ =>
        Within.bind ih fun _ => trivial

/-- A selection asks for nothing but its session, unless tags have a
throttle. -/
theorem within_selectForks {session : SessionRow} {cfg : Config}
    (ha : session.sessionId = a) (hcfg : strict → cfg.tagThrottles = [])
    (moments : List ForkMoment) :
    Within a strict (selectForks session cfg moments) := by
  subst ha
  refine Within.bind ?_ fun _ => (within_go (beq_self_eq_true _) rfl).bind
    fun roster => (within_go rfl rfl).bind fun t => within_considerAll rfl hcfg ..
  exact (within_go rfl rfl).bind fun entries =>
    within_go (beq_self_eq_true _) rfl

/-- A wake is stamped under its session. -/
theorem within_buildWake {session : SessionRow} (ha : session.sessionId = a)
    (selected : List SelectedFork) :
    Within a strict (buildWake session selected) := by
  subst ha
  unfold buildWake
  split
  · trivial
  · exact (within_go rfl rfl).bind fun t =>
      (within_go (beq_self_eq_true _) rfl).bind fun _ =>
      (within_go (beq_self_eq_true _) rfl).bind fun _ => trivial

theorem within_parkForever : Within a strict parkForever :=
  (within_go rfl rfl).bind fun _ => trivial

section watch

variable {w : Watch} (ha : w.session.sessionId = a)
  (hcfg : strict → w.cfg.tagThrottles = [])

include ha hcfg

theorem within_dueNow : Within a strict (dueNow w) := by
  refine (within_go rfl rfl).bind fun t => ?_
  split
  · trivial
  · exact (within_selectForks ha hcfg _).bind fun _ => trivial

theorem within_issueWake : Within a strict (issueWake w) := by
  refine (within_go rfl rfl).bind fun t =>
    (within_selectForks ha hcfg _).bind fun selected =>
      (within_buildWake ha selected).bind fun payload => ?_
  split
  · trivial
  · exact within_parkForever

theorem within_debounceWake : Within a strict (debounceWake w) := by
  unfold debounceWake
  split
  · refine (within_go rfl rfl).bind fun branch => ?_
    split
    · exact within_issueWake ha hcfg
    · trivial
  · exact within_issueWake ha hcfg

/-- From deadline to deadline the poll stays within its session. -/
theorem within_serveDeadlines (deadlines : List Nat) :
    Within a strict (serveDeadlines w deadlines) := by
  induction deadlines with
  | nil => exact within_parkForever
  | cons d rest ih =>
      refine (within_go rfl rfl).bind fun t =>
        (within_go rfl rfl).bind fun branch => ?_
      split
      · refine (within_dueNow ha hcfg).bind fun due => ?_
        split
        · exact within_debounceWake ha hcfg
        · exact ih
      · trivial

theorem within_awaitDue : Within a strict (awaitDue w) := by
  refine (within_dueNow ha hcfg).bind fun due => ?_
  split
  · exact within_debounceWake ha hcfg
  · exact within_serveDeadlines ha hcfg _

end watch

/-- What a prompt is depends on its session's spawns and its last wake. -/
theorem within_classifyPrompt {ev : Event} (ha : ev.sessionId = a) (t : Int) :
    Within a strict (classifyPrompt ev t) := by
  subst ha
  have hrecent : Within ev.sessionId strict (do
      let recent ← (Op.recentlyWoke ev.sessionId t).go
      pure (!recent)) :=
    (within_go (beq_self_eq_true _) rfl).bind fun _ => trivial
  unfold classifyPrompt
  -- the ids of a notification are looked up among its own spawns
  split
  · refine (within_ingestTranscript rfl).bind fun _ =>
      (within_go (beq_self_eq_true _) rfl).bind
        fun matched => ?_
    split
    · trivial
    · exact hrecent
  · split
    · trivial
    · exact hrecent

/-- The handler of an event stays within its session. -/
theorem within_handleEvent (ev : Event) :
    Within ev.sessionId strict (handleEvent ev) := by
  have hown : ∀ {op : Op}, op.minds ev.sessionId = true → op.plain = true →
      Within ev.sessionId strict op.go := within_go
  refine (hown (beq_self_eq_true _) rfl).bind fun _ =>
    (hown rfl rfl).bind fun t => ?_
  -- a start, a prompt, an end, a Stop that does not wait
  split
  · exact (hown (beq_self_eq_true _) rfl).bind fun _ => trivial
  · exact (within_classifyPrompt rfl t).bind fun waking =>
      (hown (beq_self_eq_true _) rfl).bind fun _ =>
      (hown (beq_self_eq_true _) rfl).bind fun _ => trivial
  · exact (hown (beq_self_eq_true _) rfl).bind fun _ =>
      (hown (beq_self_eq_true _) rfl).bind fun _ => trivial
  · trivial

-- the handlers that know numbers

private theorem within_go_free {op : Op} (hminds : op.minds a = true) :
    Within a False op.go :=
  ⟨⟨hminds, fun h => h.elim⟩, fun _ _ => trivial⟩

theorem within_releaseDue {session : SessionRow}
    (ha : session.sessionId = a) : Within a False (releaseDue session) := by
  subst ha
  refine (within_go_free (beq_self_eq_true _)).bind fun released => ?_
  split
  · trivial
  · exact (within_go_free (beq_self_eq_true _)).bind fun _ =>
      (within_go_free (beq_self_eq_true _)).bind fun _ => trivial

/-- A poll stays within its session. -/
theorem within_handleStopWait (ev : Event) :
    Within ev.sessionId False (handleStopWait ev) := by
  have hown : ∀ {op : Op}, op.minds ev.sessionId = true →
      Within ev.sessionId False op.go := within_go_free
  refine (hown (beq_self_eq_true _)).bind fun _ => (hown rfl).bind fun t =>
    (hown (beq_self_eq_true _)).bind fun _ =>
    (within_ingestTranscript rfl).bind fun promptTokens =>
    (hown rfl).bind fun cfg => (hown (beq_self_eq_true _)).bind fun _ =>
    (hown (beq_self_eq_true _)).bind fun _ => Within.bind ?_ fun body =>
    (hown (beq_self_eq_true _)).bind fun _ => trivial
  refine ⟨⟨beq_self_eq_true _, fun h => h.elim⟩, fun session hvalid => ?_⟩
  cases session with
  | none => trivial
  | some session =>
      have ha := hvalid session rfl
      -- dependents are listed and deleted under the session as well
      refine (within_releaseDue ha).bind fun payload => ?_
      cases payload with
      | some payload => trivial
      | none => exact (hown rfl).bind fun entries =>
          within_awaitDue ha fun h => h.elim

theorem within_onPollLost (parked : Bool) :
    Within a False (onPollLost a parked) := by
  have hown : ∀ {op : Op}, op.minds a = true → Within a False op.go :=
    within_go_free
  refine (hown rfl).bind fun gen => (hown (beq_self_eq_true _)).bind fun _ =>
    (hown (beq_self_eq_true _)).bind fun _ => ?_
  split
  · exact (hown (beq_self_eq_true _)).bind fun _ => trivial
  · trivial

/-- A grace timer looks at its session's entry, and closes that session. -/
theorem within_graceClose (gen : Nat) : Within a False (graceClose a gen) := by
  refine (within_go_free (beq_self_eq_true _)).bind fun due => ?_
  split
  · exact (within_go_free (beq_self_eq_true _)).bind
      fun _ => trivial
  · trivial

end within

-- ================================================================ twins

/-- Which close generations of two daemons stand for one another. -/
abbrev Gens := Nat → Nat → Prop

/-- Operations that stand for one another on two daemons, for session
`a`, and the results that do. -/
inductive Twin (a : String) (G : Gens) :
    (op op' : Op) → (Gens → op.Res → op'.Res → Prop) → Prop
  | plain {op : Op} (hminds : op.minds a = true) (hplain : op.plain = true) :
      Twin a G op op fun _ r r' => r = r' ∧ (within a True).valid () op r
  | nextCloseGen :
      Twin a G .nextCloseGen .nextCloseGen fun G (g g' : Nat) => G g g'
  | insertPendingClose {g g' : Nat} (hg : G g g') :
      Twin a G (.insertPendingClose a g) (.insertPendingClose a g')
        fun _ _ _ => True
  | takePendingClose {g g' : Nat} (hg : G g g') :
      Twin a G (.takePendingClose a g) (.takePendingClose a g')
        fun _ (due due' : Bool) => due = due'
  | spawnGrace {g g' : Nat} (hg : G g g') :
      Twin a G (.spawnGrace a g) (.spawnGrace a g') fun _ _ _ => True
  | releasable :
      Twin a G (.releasable a) (.releasable a) fun _ (l l' : List PendingDep) =>
        l.map PendingDep.unnumbered = l'.map PendingDep.unnumbered
  | release {session : SessionRow} {l l' : List PendingDep}
      (ha : session.sessionId = a)
      (hl : l.map PendingDep.unnumbered = l'.map PendingDep.unnumbered) :
      Twin a G (.write (.release session l)) (.write (.release session l'))
        fun _ _ _ => True
  | prune (t : Int) :
      Twin a G (.write (.prune t)) (.write (.prune t)) fun _ _ _ => True

/-- Programs that go along with one another on two daemons. -/
abbrev Alongside {α α' : Type} (a : String) (Q : α → α' → Prop) (G : Gens)
    (p : Handler α) (q : Handler α') : Prop :=
  p.Paired (Twin a) Q G q

section twins

variable {a : String} {G G' : Gens}

/-- Operations stay twins when more generations correspond. -/
theorem Twin.grow {op op' : Op} {S : Gens → op.Res → op'.Res → Prop}
    (hG : G ≤ G') (h : Twin a G op op' S) : Twin a G' op op' S := by
  cases h with
  | plain hminds hplain => exact .plain hminds hplain
  | nextCloseGen => exact .nextCloseGen
  | insertPendingClose hg => exact .insertPendingClose (hG _ _ hg)
  | takePendingClose hg => exact .takePendingClose (hG _ _ hg)
  | spawnGrace hg => exact .spawnGrace (hG _ _ hg)
  | releasable => exact .releasable
  | release ha hl => exact .release ha hl
  | prune t => exact .prune t

/-- So do programs. -/
theorem Alongside.grow {α α' : Type} {Q : α → α' → Prop} {p : Handler α}
    {q : Handler α'} (hG : G ≤ G') (h : Alongside a Q G p q) :
    Alongside a Q G' p q :=
  Prog.Paired.grow (T := Twin a) (fun _ _ _ _ _ => Twin.grow) hG h

/-- Twins await together. -/
theorem Twin.awaits {op op' : Op} {S : Gens → op.Res → op'.Res → Prop}
    (h : Twin a G op op' S) : op.awaits = op'.awaits := by
  cases h <;> rfl

/-- A strict program goes along with itself. -/
theorem Within.alongside {α : Type} {p : Handler α} (h : Within a True p) :
    Alongside a Eq G p p := by
  refine Prog.Paired.mono (fun _ _ hr => hr.1) (Prog.Typed.paired ?_ h)
  exact fun m op hok i => .plain hok.1 (hok.2 trivial)

/-- A plain operation, and what comes after. -/
private theorem plain_then {α α' : Type} {Q : α → α' → Prop} {op : Op}
    (hminds : op.minds a = true) (hplain : op.plain = true)
    {f : op.Res → Handler α} {g : op.Res → Handler α'}
    (h : ∀ G', G ≤ G' → ∀ r, (within a True).valid () op r →
      Alongside a Q G' (f r) (g r)) :
    Alongside a Q G (op.go >>= f) (op.go >>= g) :=
  ⟨op, _, _, rfl, .plain hminds hplain, fun G' hG r _ hr => hr.1 ▸ h G' hG r hr.2⟩

/-- What is released is numbered apart, and reads the same. -/
private theorem releaseDue_alongside {session : SessionRow}
    (ha : session.sessionId = a) :
    Alongside a Eq G (releaseDue session) (releaseDue session) := by
  subst ha
  refine ⟨_, _, _, rfl, .releasable, fun G' _ l l' hl => ?_⟩
  have hempty : l.isEmpty = l'.isEmpty := by
    rw [← List.isEmpty_map (f := PendingDep.unnumbered), hl, List.isEmpty_map]
  have hdue : l.map PendingDep.toDue = l'.map PendingDep.toDue := by
    have hread : ∀ l : List PendingDep, l.map PendingDep.toDue
        = (l.map PendingDep.unnumbered).map PendingDep.toDue := by
      intro l
      rw [List.map_map]
      rfl
    rw [hread, hl, ← hread]
  show Alongside _ Eq G' (if l.isEmpty then pure none else _)
    (if l'.isEmpty then pure none else _)
  rw [← hempty]
  split
  · exact Prog.paired_ret rfl
  · refine ⟨_, _, _, rfl, .release rfl hl, fun G'' _ _ _ _ => ?_⟩
    refine plain_then (beq_self_eq_true _) rfl fun _ _ _ _ => ?_
    rw [hdue]
    exact Prog.paired_ret rfl

/-- Two polls of the same request go alongside each other. -/
theorem handleStopWait_alongside (ev : Event) :
    Alongside ev.sessionId Eq G (handleStopWait ev) (handleStopWait ev) := by
  refine plain_then (beq_self_eq_true _) rfl fun _ _ _ _ =>
    plain_then rfl rfl fun _ _ t _ => plain_then (beq_self_eq_true _) rfl fun _ _ _ _ => ?_
  refine Prog.Paired.bind (within_ingestTranscript rfl).alongside
    fun G' _ promptTokens promptTokens' htokens => ?_
  obtain rfl := htokens
  refine plain_then rfl rfl fun _ _ cfg hcfg =>
    plain_then (beq_self_eq_true _) rfl fun _ _ _ _ =>
    plain_then (beq_self_eq_true _) rfl fun _ _ _ _ =>
    Prog.Paired.bind ?_ fun G' _ body body' hbody =>
      plain_then (beq_self_eq_true _) rfl fun _ _ _ _ => Prog.paired_ret hbody
  refine plain_then (beq_self_eq_true _) rfl fun _ _ session hsession => ?_
  cases session with
  | none => exact Prog.paired_ret rfl
  | some session =>
      have ha : session.sessionId = ev.sessionId := hsession session rfl
      refine Prog.Paired.bind (releaseDue_alongside ha)
        fun G' _ payload payload' hpayload => ?_
      obtain rfl := hpayload
      cases payload with
      | some payload => exact Prog.paired_ret rfl
      | none =>
          refine plain_then rfl rfl fun _ _ entries _ => ?_
          have hcfg' : True → cfg.tagThrottles = [] := hcfg
          refine Within.alongside ?_
          exact within_awaitDue ha hcfg'

/-- So do two losses: the generations they draw correspond from then on. -/
theorem onPollLost_alongside (parked : Bool) :
    Alongside a Eq G (onPollLost a parked) (onPollLost a parked) := by
  refine ⟨_, _, _, rfl, .nextCloseGen, fun G₁ _ g g' hg => ?_⟩
  refine ⟨_, _, _, rfl, .insertPendingClose hg, fun G₂ h₂ _ _ _ => ?_⟩
  refine ⟨_, _, _, rfl, .spawnGrace (h₂ _ _ hg), fun G₃ _ _ _ _ => ?_⟩
  cases parked with
  | true =>
      exact plain_then (beq_self_eq_true _) rfl fun _ _ _ _ => Prog.paired_ret rfl
  | false => exact Prog.paired_ret rfl

/-- So do two timers of generations that correspond. -/
theorem graceClose_alongside {g g' : Nat} (hg : G g g') :
    Alongside a Eq G (graceClose a g) (graceClose a g') := by
  refine ⟨_, _, _, rfl, .takePendingClose hg, fun G₁ _ due due' hdue => ?_⟩
  obtain rfl := hdue
  cases due with
  | true =>
      exact plain_then (beq_self_eq_true _) rfl
        fun _ _ _ _ => Prog.paired_ret rfl
  | false => exact Prog.paired_ret rfl

/-- Everybody's prune goes along with itself, whatever it reports. -/
theorem handlePrune_alongside :
    Alongside a (fun _ _ => True) G handlePrune handlePrune :=
  plain_then rfl rfl fun _ _ t _ =>
    ⟨_, _, _, rfl, .prune t, fun _ _ _ _ _ => Prog.paired_ret trivial⟩

end twins

end Autofork
