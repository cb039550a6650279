/-
No wake mid-turn.

A poll registers its cancellation channel under its session, and a
prompt sends whichever poll is registered its cancellation before it is
acknowledged. What the poll does with it is another matter: it looks at
the channel at its awaits only, so a poll that is past its last await
stamps and answers however long ago it was cancelled, and one that had
not yet registered was never cancelled at all (`wake_after_ack`).

`cancellable` asks the schedule for what is missing: that a prompt's
cancellation finds every poll received before it registered and at an
await, and that an await of a cancelled poll is not left by its timer.

# Shape of the argument

A registered poll is the current one of its session or has been
signalled (`Channels`), so right after a prompt's cancellation all the
polls the condition speaks of have been, and stand at an await. What a
poll does past an await that has been cut short is a matter of its
program: it neither stamps nor releases, and it answers that it has
waited (`handler_heeding`). So such a poll is `Silent` and stays so: it
is at an await that only its cancellation can end, or past one.
-/
import Autofork.Lib.Typestate
import Autofork.Proofs.Held
import Autofork.Proofs.Walk

namespace Autofork

open Lib

-- ================================================ what a poll has issued

/-- The poll that issues or releases what an entry records. -/
def Obs.waker (o : Obs) : Option Nat := o.issuer <|> o.releaser

/-- The log has a wake of poll `k`, issued or released. -/
def HasWake (k : Nat) (l : List Obs) : Prop := ∃ o ∈ l, o.waker = some k

instance (k : Nat) (l : List Obs) : Decidable (HasWake k l) :=
  inferInstanceAs (Decidable (∃ o ∈ l, _))

-- ============================================================== prompts

/-- What a prompt's acknowledgement rests on: its cancellation. -/
def Promised (k : Nat) (job : Job) (l : List Obs) (_ : ResponseBody) :
    Prop :=
  match job with
  | .request (.event ev) =>
      ev.event = .promptSubmit → Obs.cancelled k ev.sessionId ∈ l
  | _ => True

theorem promised_stable (k : Nat) (job : Job) (body : ResponseBody) :
    Prog.Stable (Promised k job · body) := by
  intro l l' hl h
  cases job with
  | request req =>
      cases req with
      | event ev => exact fun he => hl.subset (h he)
      | stopWait ev => trivial
      | prune => trivial
  | reap => trivial
  | grace sessionId gen => trivial

/-- A prompt cancels before it is acknowledged. -/
private theorem handleEvent_told (k : Nat) (ev : Event) (l : List Obs) :
    Prog.Outline .free (onRecord k) (fun l _ =>
      ev.event = .promptSubmit → Obs.cancelled k ev.sessionId ∈ l)
      (handleEvent ev) l := by
  have hcarried : Carried .free (onRecord k) fun _ => True :=
    carried_free (fun _ _ _ _ => trivial) fun _ _ _ => trivial
  cases he : ev.event with
  | promptSubmit =>
      refine hcarried.then (quiet_go ⟨rfl, rfl⟩) trivial fun _ l _ =>
        hcarried.then (quiet_go ⟨rfl, rfl⟩) trivial fun t l _ => ?_
      rw [he]
      refine hcarried.then (quiet_classifyPrompt ev t) trivial fun waking l _ =>
        hcarried.then (quiet_go ⟨rfl, rfl⟩) trivial fun _ l _ => ?_
      exact ⟨fun _ => trivial, fun _ _ =>
        ⟨trivial, fun _ _ _ hpost _ => hpost _ rfl⟩⟩
  | _ =>
      exact ((quiet_handleEvent ev).outline_free (fun _ _ _ => trivial) l).mono
        fun _ _ _ _ h => by cases h

/-- Whatever a program does is on record. -/
private theorem outline_onRecord {k : Nat} (p : Handler ResponseBody)
    (l : List Obs) :
    Prog.Outline .free (onRecord k) (fun _ _ => True) p l := by
  induction p generalizing l with
  | ret body => trivial
  | call op f ih =>
      exact ⟨fun _ => trivial, fun _ _ => ⟨trivial, fun r l _ _ => ih r l⟩⟩

theorem handler_promised (k : Nat) (job : Job) (l : List Obs) :
    Prog.Outline .free (onRecord k) (Promised k job) job.handler l := by
  cases job with
  | request req =>
      cases req with
      | event ev => exact handleEvent_told k ev l
      | stopWait ev => exact outline_onRecord _ l
      | prune => exact outline_onRecord _ l
  | reap => exact outline_onRecord _ l
  | grace sessionId gen => exact outline_onRecord _ l

-- =============================================== past a cut-short await

/-- A handler, by whether an await of it has been cut short: left
otherwise than by its timer. From then on it neither stamps nor
releases. -/
def heeding : Prog.Typestate Op Op.Res Bool where
  ok m op := m = true → op.wakes = false
  next m
    | .select _, branch => m || branch != .timer
    | _, _ => m

/-- Nor does it answer a wake. -/
def Hushed (m : Bool) (body : ResponseBody) : Prop := m = true → ¬IsWake body

/-- What such a handler does from here on. -/
abbrev Heeding (m : Bool) (p : Handler ResponseBody) : Prop :=
  p.Typed heeding Hushed m

private theorem hushed_waited (m : Bool) : Hushed m .waited :=
  fun _ ⟨payload, h⟩ => by cases h

private theorem heeding_next {op : Op} (h : op.awaits = false) (m : Bool)
    (r : op.Res) : heeding.next m op r = m := by
  cases op <;> first | rfl | cases h

/-- Once cut short, always so. -/
private theorem heeding_next_true (op : Op) (r : op.Res) :
    heeding.next true op r = true := by
  cases op <;> rfl

/-- Only an await makes a difference. -/
theorem Quiet.heeding {α : Type} {p : Handler α} (h : Quiet p) (m : Bool) :
    p.Typed heeding (fun m' _ => m' = m) m := by
  refine Prog.Every.typed (I := (· = m)) rfl (h.mono fun op hop m' hm => ?_)
  exact ⟨fun _ => hop.1, fun r _ => (heeding_next hop.2 m' r).trans hm⟩

/-- What comes after a quiet program. -/
private theorem Quiet.thenHeeding {α : Type} {p : Handler α} (h : Quiet p)
    {f : α → Handler ResponseBody} {m : Bool}
    (hf : ∀ r, Heeding m (f r)) : Heeding m (p >>= f) :=
  (h.heeding m).bind fun _ r hm => hm ▸ hf r

/-- A quiet handler that answers no wake heeds whatever comes. -/
private theorem Quiet.heeds {p : Handler ResponseBody} (h : Quiet p)
    (hr : p.Returns fun body => ¬IsWake body) (m : Bool) : Heeding m p :=
  ((h.heeding m).returning hr).mono fun _ _ ha _ => ha.2

/-- An await past which a poll goes on only by its timer. -/
private theorem await_heeding {sleepSecs : Option Nat}
    {f : Branch → Handler ResponseBody} (htimer : Heeding false (f .timer))
    (hother : ∀ branch, branch ≠ .timer → f branch = pure .waited) :
    Heeding false ((Op.select sleepSecs).go >>= f) := by
  refine ⟨fun h => (Bool.false_ne_true h).elim, fun branch _ => ?_⟩
  show Heeding (branch != .timer) (f branch)
  by_cases hb : branch = .timer
  · subst hb
    exact htimer
  · rw [hother branch hb]
    exact hushed_waited _

private theorem parkForever_heeding : Heeding false parkForever :=
  await_heeding (hushed_waited _) fun _ _ => rfl

private theorem buildWake_heeding (session : SessionRow)
    (selected : List SelectedFork) :
    (buildWake session selected).Typed heeding (fun m _ => m = false)
      false := by
  have hfree : ∀ op, heeding.ok false op := fun _ h =>
    (Bool.false_ne_true h).elim
  unfold buildWake
  split
  · rfl
  · exact ⟨hfree _, fun t _ => ⟨hfree _, fun _ _ =>
      ⟨hfree _, fun _ _ => rfl⟩⟩⟩

private theorem releaseDue_heeding (session : SessionRow) :
    (releaseDue session).Typed heeding (fun m _ => m = false) false := by
  have hfree : ∀ op, heeding.ok false op := fun _ h =>
    (Bool.false_ne_true h).elim
  refine ⟨hfree _, fun released _ => ?_⟩
  show Prog.Typed _ _ _ (if List.isEmpty released then pure none else _)
  split
  · rfl
  · exact ⟨hfree _, fun _ _ => ⟨hfree _, fun _ _ => rfl⟩⟩

private theorem issueWake_heeding (w : Watch) :
    Heeding false (issueWake w) := by
  refine (quiet_go ⟨rfl, rfl⟩).thenHeeding fun t =>
    (tame_selectForks ..).quiet.thenHeeding fun selected =>
    (buildWake_heeding ..).bind fun m payload hm => ?_
  subst hm
  cases payload with
  | some payload => exact fun h => (Bool.false_ne_true h).elim
  | none => exact parkForever_heeding

private theorem debounceWake_heeding (w : Watch) :
    Heeding false (debounceWake w) := by
  unfold debounceWake
  split
  · refine await_heeding (issueWake_heeding w) fun branch hb => ?_
    cases branch <;> first | rfl | exact absurd rfl hb
  · exact issueWake_heeding w

private theorem serveDeadlines_heeding (w : Watch) (deadlines : List Nat) :
    Heeding false (serveDeadlines w deadlines) := by
  induction deadlines with
  | nil => exact parkForever_heeding
  | cons d rest ih =>
      refine (quiet_go ⟨rfl, rfl⟩).thenHeeding fun t =>
        await_heeding ?_ fun branch hb => ?_
      · refine (tame_dueNow w).quiet.thenHeeding fun due => ?_
        cases due with
        | true => exact debounceWake_heeding w
        | false => exact ih
      · cases branch <;> first | rfl | exact absurd rfl hb

private theorem parkedPoll_heeding (ev : Event) (t : Int)
    (promptTokens : Option Nat) (cfg : Config) :
    Heeding false (parkedPoll ev t promptTokens cfg) := by
  refine (quiet_go ⟨rfl, rfl⟩).thenHeeding fun session => ?_
  cases session with
  | none => exact hushed_waited _
  | some session =>
      refine (releaseDue_heeding session).bind fun m payload hm => ?_
      subst hm
      cases payload with
      | some payload => exact fun h => (Bool.false_ne_true h).elim
      | none =>
          refine (quiet_go ⟨rfl, rfl⟩).thenHeeding fun entries =>
            (tame_dueNow _).quiet.thenHeeding fun due => ?_
          cases due with
          | true => exact debounceWake_heeding _
          | false => exact serveDeadlines_heeding _ _

private theorem handleStopWait_heeding (ev : Event) :
    Heeding false (handleStopWait ev) := by
  refine (quiet_go ⟨rfl, rfl⟩).thenHeeding fun _ =>
    (quiet_go ⟨rfl, rfl⟩).thenHeeding fun t =>
    (quiet_go ⟨rfl, rfl⟩).thenHeeding fun _ =>
    (tame_ingestTranscript ev).quiet.thenHeeding fun promptTokens =>
    (quiet_go ⟨rfl, rfl⟩).thenHeeding fun cfg =>
    (quiet_go ⟨rfl, rfl⟩).thenHeeding fun _ =>
    (quiet_go ⟨rfl, rfl⟩).thenHeeding fun _ => ?_
  refine (parkedPoll_heeding ev t promptTokens cfg).bind fun m body hbody => ?_
  exact ⟨fun _ => rfl, fun _ _ => hbody⟩

/-- A handler without a client answers no wake in any case; whoever has
one heeds an await that is cut short. -/
theorem handler_heeding (job : Job) :
    Heeding false job.handler
      ∧ ((∀ req, job ≠ .request req) → Heeding true job.handler) := by
  cases job with
  | request req =>
      refine ⟨?_, fun h => absurd rfl (h req)⟩
      cases req with
      | event ev => exact (quiet_handleEvent ev).heeds (returns_handleEvent ev) _
      | stopWait ev => exact handleStopWait_heeding ev
      | prune => exact quiet_handlePrune.heeds returns_handlePrune _
  | reap =>
      have hreturns : sessionReaper.Returns fun body => ¬IsWake body :=
        Prog.Returns.after fun cutoffs => returns_closeAll cutoffs
      exact ⟨quiet_sessionReaper.heeds hreturns _,
        fun _ => quiet_sessionReaper.heeds hreturns _⟩
  | grace sessionId gen =>
      have hquiet := quiet_graceClose sessionId gen
      have hreturns := returns_graceClose sessionId gen
      exact ⟨hquiet.heeds hreturns _, fun _ => hquiet.heeds hreturns _⟩

private theorem onPollLost_heeding (sessionId : String) (parked : Bool) :
    Heeding true (onPollLost sessionId parked) := by
  refine (quiet_onPollLost sessionId parked).heeds ?_ true
  refine Prog.Returns.after fun gen => Prog.Returns.after fun _ =>
    Prog.Returns.after fun _ => ?_
  split
  · exact Prog.Returns.after fun _ ⟨payload, h⟩ => by cases h
  · exact fun ⟨payload, h⟩ => by cases h

namespace World

/-- Every task heeds its awaits, and one without a client answers no
wake. -/
def Heedful (w : World) : Prop :=
  ∀ k task, w.tasks k = some task →
    ∃ m, (task.client = false → m = true) ∧ Heeding m task.prog

theorem heedful_init (disk : Disk) : (init disk).Heedful := by
  intro k task h
  cases h

theorem heedful_step {w : World} (act : Act) (h : w.Heedful) :
    (w.step act).Heedful := by
  intro k task ht
  rcases step_tasks ht with hold | ⟨job, client, -, -, hclient, rfl⟩
    | ⟨old, op, f, tick, d, r, -, hold, hprog, -, -, rfl⟩
    | ⟨ev, started, op, f, -, -, -, rfl⟩
  · exact h k task hold
  · cases client with
    | true => exact ⟨false, Bool.noConfusion, (handler_heeding job).1⟩
    | false =>
        refine ⟨true, fun _ => rfl, (handler_heeding job).2 fun req hreq => ?_⟩
        cases hclient req hreq
  · obtain ⟨m, hm, hp⟩ := h k old hold
    rw [hprog] at hp
    refine ⟨_, fun hc => ?_, hp.2 r trivial⟩
    rw [hm hc]
    exact heeding_next_true op r
  · exact ⟨true, fun _ => rfl, onPollLost_heeding ev.sessionId started⟩

end World

-- ============================================================ channels

namespace World

/-- Number `k` is a poll of session `a`. -/
def isPoll (w : World) (a : String) (k : Nat) : Bool :=
  match w.jobs[k]? with
  | some (.request (.stopWait ev)) => ev.sessionId == a
  | _ => false

/-- Number `k` is a prompt of session `a`. -/
def isPrompt (w : World) (a : String) (k : Nat) : Bool :=
  match w.jobs[k]? with
  | some (.request (.event ev)) =>
      ev.event == .promptSubmit && ev.sessionId == a
  | _ => false

/-- A client waits for the answer of task `k`. -/
def waiting (w : World) (k : Nat) : Bool := (w.tasks k).any Task.client

end World

/-- At a prompt's cancellation every poll of its session received before
it that is still waited for has registered and stands at an await; and an
await of a poll that has been sent its cancellation is not left by its
timer. -/
def cancellable (a : String) (w : World) : Act → Bool
  | .move k tick => match w.about k with
      | some (.cancelWait _) => !w.isPrompt a k || (List.range k).all fun i =>
          !w.isPoll a i || !w.waiting i
            || (decide (Obs.registered i a ∈ w.daemon.log)
              && (w.about i).any Op.awaits)
      | some (.select (some _)) =>
          !w.isPoll a k || !w.daemon.signalled k || tick.branch != .timer
      | _ => true
  | _ => true

/-- A registered poll is the current one of its session, or has been
sent its cancellation. -/
def Channels (w : World) : Prop :=
  ∀ k s, .registered k s ∈ w.daemon.log →
    w.daemon.signalled k = true ∨ w.daemon.waits s = some k

private theorem channels_exec {k : Nat} {op : Op} {tick : Tick}
    {d d' : Daemon} {r : op.Res} (hex : exec k op tick d = some (d', r))
    (h : ∀ j s, .registered j s ∈ d.log →
      d.signalled j = true ∨ d.waits s = some j) :
    ∀ j s, .registered j s ∈ d'.log →
      d'.signalled j = true ∨ d'.waits s = some j := by
  -- the poll that leaves the slot of its session is signalled
  have leave : ∀ {j : Nat} {s' : String} (s : String) (v : Option Nat),
      d.signalled j = true ∨ d.waits s' = some j →
      (d.signal (d.waits s)).signalled j = true
        ∨ upd d.waits s v s' = some j := by
    intro j s' s v hj
    rcases hj with hj | hj
    · exact .inl (signalled_signal.2 (.inl hj))
    · by_cases hs : s' = s
      · exact .inl (signalled_signal.2 (.inr (hs ▸ hj)))
      · exact .inr (by rw [upd_other _ _ hs]; exact hj)
  intro j s' hj
  have hlog := (exec_deed hex).2 _ hj
  rcases exec_waits hex with ⟨s, rfl, hw, hsig⟩ | ⟨s, rfl, hw, hsig⟩
    | ⟨hr, -, hw, hsig⟩
  · rw [hw, hsig]
    rcases hlog with hj | hj | hj
    · exact leave s _ (h j s' hj)
    · obtain ⟨rfl, rfl⟩ := Obs.registered.inj (Option.some.inj hj)
      exact .inr (upd_same ..)
    · cases hj
  · rw [hw, hsig]
    rcases hlog with hj | hj | hj
    · exact leave s _ (h j s' hj)
    · cases hj
    · cases hj
  · rw [hw, hsig]
    rcases hlog with hj | hj | hj
    · exact h j s' hj
    · exact absurd (Op.deed_registered hj).2 (hr s')
    · cases hj

theorem channels_step {w : World} (act : Act) (h : Channels w) :
    Channels (w.step act) := by
  rcases w.step_cases act with
    ⟨k, task, op, f, tick, d, r, -, -, -, -, hex, heq⟩
    | ⟨k, tick, task, body, -, -, -, heq⟩ | ⟨disk, graceTimers, heq, -⟩
  · rw [Channels, heq]
    exact channels_exec hex h
  · rw [Channels, heq]
    intro j s hj
    refine h j s ?_
    simp only at hj
    split at hj
    · simpa using hj
    · exact hj
  · rw [Channels, heq]
    exact h

-- ======================================================== silent polls

/-- A poll that is past an await that was cut short, or at one with its
cancellation sent. -/
def Silent (k : Nat) (w : World) : Prop :=
  ∀ task, w.tasks k = some task → Heeding true task.prog
    ∨ (w.daemon.signalled k = true ∧ (w.about k).any Op.awaits = true)

theorem signalled_step {w : World} {k : Nat} (act : Act)
    (h : w.daemon.signalled k = true) :
    (w.step act).daemon.signalled k = true := by
  rcases w.step_cases act with
    ⟨j, task, op, f, tick, d, r, -, -, -, -, hex, heq⟩
    | ⟨j, tick, task, body, -, -, -, heq⟩ | ⟨disk, graceTimers, heq, -⟩
  · rw [heq]
    rcases exec_waits hex with ⟨s, -, -, hsig⟩ | ⟨s, -, -, hsig⟩
      | ⟨-, -, -, hsig⟩
    · exact hsig ▸ signalled_signal.2 (.inl h)
    · exact hsig ▸ signalled_signal.2 (.inl h)
    · exact hsig ▸ h
  · rw [heq]
    exact h
  · rw [heq]
    exact h

/-- A cancelled poll leaves its await by something else than its
timer. -/
private theorem select_cut {a : String} {w : World} {k : Nat} {tick : Tick}
    {sleepSecs : Option Nat} {d : Daemon} {branch : Branch}
    (hC : cancellable a w (.move k tick) = true)
    (hpoll : w.isPoll a k = true) (hsig : w.daemon.signalled k = true)
    (hab : w.about k = some (.select sleepSecs))
    (hex : exec k (.select sleepSecs) tick w.daemon = some (d, branch)) :
    branch ≠ .timer := by
  rintro rfl
  have htick : tick.branch = .timer ∧ sleepSecs.isSome = true := by
    simp only [exec] at hex
    split at hex
    · refine ⟨‹_›, ?_⟩
      split at hex
      · assumption
      · cases hex
    · split at hex <;> simp at hex
    · simp at hex
  obtain ⟨secs, rfl⟩ := Option.isSome_iff_exists.1 htick.2
  simp [cancellable, hab, hpoll, hsig, htick.1] at hC

private theorem silent_step {a : String} {w : World} {act : Act} {k : Nat}
    (hC : cancellable a w act = true) (hk : k < w.jobs.length)
    (hpoll : w.isPoll a k = true) (hheed : w.Heedful) (h : Silent k w) :
    Silent k (w.step act) := by
  intro task ht
  rcases World.step_tasks ht with hold | ⟨job, client, rfl, -, -, -⟩
    | ⟨old, op, f, tick, d, r, rfl, hold, hprog, hex, -, rfl⟩
    | ⟨ev, started, op, f, -, -, -, rfl⟩
  · refine (h task hold).imp_right fun ⟨hsig, hab⟩ =>
      ⟨signalled_step act hsig, ?_⟩
    have hsame : (w.step act).about k = w.about k := by
      rw [World.about, World.about, ht, hold]
    rw [hsame]
    exact hab
  · exact absurd hk (Nat.lt_irrefl _)
  · left
    rcases h old hold with hcut | ⟨hsig, hawait⟩
    · rw [hprog] at hcut
      have hrest := hcut.2 r trivial
      rw [heeding_next_true] at hrest
      exact hrest
    · -- at its await, which ends by the cancellation
      have hab := World.about_of_prog hold hprog
      rw [hab] at hawait
      cases op with
      | select sleepSecs =>
          obtain ⟨m, -, hp⟩ := hheed k old hold
          rw [hprog] at hp
          have hrest := hp.2 r trivial
          have hcut : (m || r != Branch.timer) = true := by
            simp [select_cut hC hpoll hsig hab hex]
          rw [show heeding.next m (.select sleepSecs) r = true from hcut] at hrest
          exact hrest
      | _ => cases hawait
  · exact .inl (onPollLost_heeding ev.sessionId started)

/-- A silent poll neither stamps nor releases. -/
private theorem Silent.about {w : World} {k : Nat} (h : Silent k w)
    {op : Op} (hab : w.about k = some op) : op.wakes = false := by
  obtain ⟨task, f, ht, hprog⟩ := World.about_eq_some hab
  rcases h task ht with hcut | ⟨-, hawait⟩
  · rw [hprog] at hcut
    exact hcut.1 rfl
  · rw [hab] at hawait
    cases op <;> first | rfl | cases hawait

/-- What a step adds to the log is not a silent poll's wake. -/
private theorem Silent.logs {w : World} {k : Nat} (h : Silent k w)
    (act : Act) : ∃ obs, (w.step act).daemon.log = obs ++ w.daemon.log
      ∧ ∀ o ∈ obs, o.waker ≠ some k := by
  rcases w.step_cases act with
    ⟨j, task, op, f, tick, d, r, -, -, -, hab, hex, heq⟩
    | ⟨j, tick, task, body, -, -, -, heq⟩ | ⟨disk, graceTimers, heq, -⟩
  · rw [heq]
    rcases exec_entries hex with ⟨o, ho, hlog⟩ | ⟨-, obs, hlog, hobs⟩
    · refine ⟨[o], hlog, fun o' ho' hk => ?_⟩
      rw [List.mem_singleton.1 ho'] at hk
      -- an entry with a waker is the deed of an operation that wakes
      have hdeed : j = k ∧ op.wakes = true := by
        cases op with
        | write x =>
            cases x <;> cases ho <;> cases hk <;> exact ⟨rfl, rfl⟩
        | snapshot s => cases r <;> cases ho; cases hk
        | _ => cases ho <;> cases hk
      obtain ⟨rfl, hwakes⟩ := hdeed
      rw [h.about hab] at hwakes
      cases hwakes
    · refine ⟨obs, hlog, fun o ho hk => ?_⟩
      have := hobs o ho
      cases o <;> contradiction
  · rw [heq]
    dsimp only
    split
    · exact ⟨[.answered j body], rfl, by simp [Obs.waker, Obs.issuer, Obs.releaser]⟩
    · exact ⟨[], rfl, by simp⟩
  · rw [heq]
    exact ⟨[], rfl, by simp⟩

/-- At a prompt's cancellation the polls received before it become
silent. -/
private theorem silent_of_cancelWait {a : String} {w : World} {p k : Nat}
    {tick : Tick} (hchan : Channels w) (hheed : w.Heedful)
    (hab : w.about p = some (.cancelWait a))
    (hC : cancellable a w (.move p tick) = true)
    (hp : w.isPrompt a p = true) (hpoll : w.isPoll a k = true)
    (hkp : k < p) : Silent k (w.step (.move p tick)) := by
  intro task ht
  obtain ⟨taskp, f, htp, hprog⟩ := World.about_eq_some hab
  have hstep : w.step (.move p tick) = w.resumed p taskp
      { w.daemon.signal (w.daemon.waits a) with
        waits := upd w.daemon.waits a none
        log := .cancelled p a :: w.daemon.log } (f ()) := by
    simp only [World.step, World.move, htp, hprog, exec]
  have hold : w.tasks k = some task := by
    rw [hstep] at ht
    simpa [World.resumed, upd_other _ _ (Nat.ne_of_lt hkp)] using ht
  cases hclient : task.client with
  | false =>
      obtain ⟨m, hm, hp⟩ := hheed k task hold
      exact .inl (hm hclient ▸ hp)
  | true =>
      have hwait : w.waiting k = true := by
        simp [World.waiting, hold, hclient]
      simp only [cancellable, hab, hp, Bool.not_true, Bool.false_or,
        List.all_eq_true, List.mem_range] at hC
      have hready := hC k hkp
      simp only [hpoll, hwait, Bool.not_true, Bool.false_or, Bool.and_eq_true,
        decide_eq_true_eq] at hready
      obtain ⟨hreg, hawait⟩ := hready
      have hsame : (w.step (.move p tick)).about k = w.about k := by
        rw [World.about, World.about, ht, hold]
      refine .inr ⟨?_, hsame ▸ hawait⟩
      rw [hstep]
      rcases hchan k a hreg with hsig | hw
      · exact signalled_signal.2 (.inl hsig)
      · exact signalled_signal.2 (.inr hw)

-- ======================================================= no wake mid-turn

/-- What every run keeps. -/
structure Turns (a : String) (w : World) : Prop where
  outlined : w.Outlined .free onRecord Promised
  answered : w.Answered Promised
  channels : Channels w
  heedful : w.Heedful
  cancelledBy : ∀ p s, .cancelled p s ∈ w.daemon.log → p < w.jobs.length
  /-- The polls received before a prompt that has cancelled. -/
  silent : ∀ p k, .cancelled p a ∈ w.daemon.log → w.isPrompt a p = true →
    w.isPoll a k = true → k < p → Silent k w

/-- What an action says of an old number it said before. -/
private theorem isPoll_of_step {w : World} {act : Act} {a : String}
    {k : Nat} (hk : k < w.jobs.length) :
    (w.step act).isPoll a k = w.isPoll a k := by
  have hjob : w.jobs[k]? = some w.jobs[k] := List.getElem?_eq_getElem hk
  simp only [World.isPoll, w.jobs_step hjob act, hjob]

private theorem isPrompt_of_step {w : World} {act : Act} {a : String}
    {k : Nat} (hk : k < w.jobs.length) :
    (w.step act).isPrompt a k = w.isPrompt a k := by
  have hjob : w.jobs[k]? = some w.jobs[k] := List.getElem?_eq_getElem hk
  simp only [World.isPrompt, w.jobs_step hjob act, hjob]

/-- A cancellation is on record only by the handler that made it. -/
private theorem cancelled_of_step {w : World} {act : Act} {p : Nat}
    {s : String} (h : .cancelled p s ∈ (w.step act).daemon.log) :
    .cancelled p s ∈ w.daemon.log
      ∨ ∃ tick, act = .move p tick ∧ w.about p = some (.cancelWait s) := by
  rcases w.step_cases act with
    ⟨j, task, op, f, tick, d, r, rfl, -, -, hab, hex, heq⟩
    | ⟨j, tick, task, body, -, -, -, heq⟩ | ⟨disk, graceTimers, heq, -⟩
  · rw [heq] at h
    rcases (exec_deed hex).2 _ h with h | h | h
    · exact .inl h
    · obtain ⟨rfl, rfl⟩ := Op.deed_cancelled h
      exact .inr ⟨tick, rfl, hab⟩
    · cases h
  · rw [heq] at h
    simp only at h
    split at h
    · exact .inl (by simpa using h)
    · exact .inl h
  · rw [heq] at h
    exact .inl h

private theorem turns_init (a : String) (disk : Disk) :
    Turns a (World.init disk) where
  outlined := World.outlined_init disk trivial
  answered := World.answered_init _ disk
  channels k s h := by cases h
  heedful := World.heedful_init disk
  cancelledBy p s h := by cases h
  silent p k h := by cases h

private theorem turns_step {a : String} (w : World) (act : Act)
    (hC : cancellable a w act = true) (h : Turns a w) :
    Turns a (w.step act) where
  outlined := h.outlined.step_free (fun _ _ _ _ => trivial)
    (fun k task _ l => handler_promised k task.job l)
    (fun _ _ _ _ _ _ _ hex => (exec_deed hex).1)
  answered := World.answered_step promised_stable h.outlined h.answered
  channels := channels_step act h.channels
  heedful := World.heedful_step act h.heedful
  cancelledBy p s hp := by
    refine Nat.lt_of_lt_of_le ?_ (w.step_jobs act).length_le
    rcases cancelled_of_step hp with hp | ⟨tick, -, hab⟩
    · exact h.cancelledBy p s hp
    · obtain ⟨task, f, ht, -⟩ := World.about_eq_some hab
      exact h.outlined.numbered.lt ht
  silent p k hp hprompt hpoll hkp := by
    have hlt : p < w.jobs.length := by
      rcases cancelled_of_step hp with hp | ⟨tick, -, hab⟩
      · exact h.cancelledBy p a hp
      · obtain ⟨task, f, ht, -⟩ := World.about_eq_some hab
        exact h.outlined.numbered.lt ht
    have hk := Nat.lt_trans hkp hlt
    rw [isPrompt_of_step hlt] at hprompt
    rw [isPoll_of_step hk] at hpoll
    rcases cancelled_of_step hp with hp | ⟨tick, rfl, hab⟩
    · exact silent_step hC hk hpoll h.heedful (h.silent p k hp hprompt hpoll hkp)
    · exact silent_of_cancelWait h.channels h.heedful hab hC hprompt hpoll hkp

/-- From a state in which poll `k` is silent on, it stays so, and nothing
more is logged of its wakes. -/
private theorem silent_run {a : String} {w : World} {k : Nat}
    {cs : List Act}
    (hC : Along World.step (fun w act => cancellable a w act = true) w cs)
    (hturns : Turns a w) (hk : k < w.jobs.length)
    (hpoll : w.isPoll a k = true) (hsil : Silent k w)
    (hopen : ∀ o ∈ w.daemon.log, ¬AnswersWake k o) :
    (∃ obs, (run World.step w cs).daemon.log = obs ++ w.daemon.log
        ∧ ∀ o ∈ obs, o.waker ≠ some k)
      ∧ ∀ o ∈ (run World.step w cs).daemon.log, ¬AnswersWake k o := by
  refine (hC.invariant (P := fun w' : World => Turns a w'
      ∧ k < w'.jobs.length ∧ w'.isPoll a k = true ∧ Silent k w'
      ∧ (∃ obs, w'.daemon.log = obs ++ w.daemon.log
        ∧ ∀ o ∈ obs, o.waker ≠ some k)
      ∧ ∀ o ∈ w'.daemon.log, ¬AnswersWake k o)
    (fun w' act hC ⟨hturns, hlt, hpoll, hsil, hold, hno⟩ => ?_)
    ⟨hturns, hk, hpoll, hsil, ⟨[], rfl, by simp⟩, hopen⟩).2.2.2.2
  refine ⟨turns_step w' act hC hturns,
    Nat.lt_of_lt_of_le hlt (w'.step_jobs act).length_le,
    by rw [isPoll_of_step hlt]; exact hpoll,
    silent_step hC hlt hpoll hturns.heedful hsil, ?_, fun o ho hans => ?_⟩
  · obtain ⟨obs, hlog, hobs⟩ := hold
    obtain ⟨more, hmore, hnone⟩ := hsil.logs act
    refine ⟨more ++ obs, by rw [hmore, hlog, List.append_assoc], ?_⟩
    rw [List.forall_mem_append]
    exact ⟨hnone, hobs⟩
  -- nor is there an answer left for it to give
  obtain ⟨payload, rfl⟩ := hans.eq_answered
  obtain ⟨task, ht, hprog, hc⟩ :=
    World.answered_new ho fun hold => hno _ hold rfl
  rcases hsil task ht with hcut | ⟨-, hawait⟩
  · rw [hprog] at hcut
    exact hcut rfl ⟨payload, rfl⟩
  · obtain ⟨job, started, client, prog⟩ := task
    subst hprog
    simp [World.about, ht] at hawait

/-- In every interleaving that meets the condition: once a prompt of the
session has been acknowledged, no poll of the session received before it
stamps or releases any more, or is answered a wake. -/
theorem no_wake_mid_turn {disk : Disk} {a : String} {bs cs : List Act}
    (hC : Along World.step (fun w act => cancellable a w act = true)
      (World.init disk) (bs ++ cs))
    {p k : Nat}
    (hp : (run World.step (World.init disk) bs).isPrompt a p = true)
    (hack : .answered p .ack
      ∈ (run World.step (World.init disk) bs).daemon.log)
    (hk : (run World.step (World.init disk) bs).isPoll a k = true)
    (hkp : k < p)
    (hopen : ∀ o ∈ (run World.step (World.init disk) bs).daemon.log,
      ¬AnswersWake k o) :
    (∀ o ∈ newer (World.after disk bs).daemon.log
        (World.after disk (bs ++ cs)).daemon.log, o.waker ≠ some k)
      ∧ ∀ o ∈ (run World.step (World.init disk) (bs ++ cs)).daemon.log,
        ¬AnswersWake k o := by
  rw [along_append] at hC
  rw [World.after, World.after, run_append]
  have hbs := hC.1.invariant (P := Turns a) turns_step (turns_init a disk)
  generalize run World.step (World.init disk) bs = w at *
  obtain ⟨job, hjob, hpromise⟩ := hbs.answered p _ hack
  have hcancelled : .cancelled p a ∈ w.daemon.log := by
    have hp' := hp
    simp only [World.isPrompt, hjob] at hp'
    split at hp'
    next ev hev =>
      simp only [Bool.and_eq_true, beq_iff_eq] at hp'
      rw [Option.some.inj hev] at hpromise
      exact hp'.2 ▸ hpromise hp'.1
    next => cases hp'
  have hlt := Nat.lt_trans hkp (hbs.cancelledBy p a hcancelled)
  obtain ⟨⟨obs, hlog, hobs⟩, hno⟩ := silent_run hC.2 hbs hlt hk
    (hbs.silent p k hcancelled hp hk hkp) hopen
  refine ⟨?_, hno⟩
  rw [hlog, newer_append]
  exact hobs

-- ------------------------------------------- a prompt and a parked poll

/-- A fork due a minute into the pause. -/
private def later : Disk :=
  .holding [("f", { runOn := [.idle (some 60)] })] { wakeDebounceSecs := 0 }
    (some { newOffset := 1 })

/-- A poll that has parked is cancelled by the prompt, and answers that
it has waited. -/
theorem no_wake_mid_turn_parked :
    let bs := .stop "s" :: Act.moves 15 0 10 ++ .prompt "s" :: Act.moves 5 1 20
    let cs := .move 0 { now := 20, branch := .cancelled } :: Act.moves 2 0 20
    .answered 0 .waited
        ∈ (run World.step (World.init later) (bs ++ cs)).daemon.log
      ∧ (∀ o ∈ newer (World.after later bs).daemon.log
        (World.after later (bs ++ cs)).daemon.log, o.waker ≠ some 0)
      ∧ ∀ o ∈ (run World.step (World.init later) (bs ++ cs)).daemon.log,
        ¬AnswersWake 0 o := by
  intro bs cs
  refine ⟨by decide +kernel, no_wake_mid_turn (a := "s") (p := 1) ?_ ?_ ?_ ?_
    (by decide) ?_⟩ <;> decide +kernel

/-- A poll whose deadline has passed goes past its last await; the
prompt is acknowledged, and then the poll stamps and wakes. -/
theorem wake_after_ack :
    ¬∀ (disk : Disk) (a : String) (bs cs : List Act) (p k : Nat),
      (run World.step (World.init disk) bs).isPrompt a p = true →
      .answered p .ack ∈ (run World.step (World.init disk) bs).daemon.log →
      (run World.step (World.init disk) bs).isPoll a k = true → k < p →
      (∀ o ∈ (run World.step (World.init disk) bs).daemon.log,
        ¬AnswersWake k o) →
      ∀ o ∈ (run World.step (World.init disk) (bs ++ cs)).daemon.log,
        ¬AnswersWake k o := by
  intro h
  have hrun := h later "s"
    (.stop "s" :: Act.moves 15 0 10 ++ Act.moves 16 0 70
      ++ .prompt "s" :: Act.moves 5 1 70)
    (Act.moves 4 0 70) 1 0 (by decide +kernel) (by decide +kernel)
    (by decide +kernel) (by decide) (by decide +kernel)
  revert hrun
  decide +kernel

end Autofork
