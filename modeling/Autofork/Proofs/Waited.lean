/-
Why a poll is answered that it has waited.

A poll gives up only where it has lost its session's row, or where an
await ends otherwise than by its timer. The row is there: the poll has
opened its session, and nothing removes rows. An await ends otherwise
when the poll has been sent its cancellation, or when a notification has
reached it. So a handler is typed by whether it has opened its session
and whether an await of it has been cut short (`Job.patience`), and it
returns `Waited` in the latter case only.

A cancellation is sent when another poll of the session registers, or a
prompt or an end of the session cancels (`Replaced`). A
notification is sent by the quiet reaper or for a client that asks for
it (`told_cause`). Nothing else makes a client wait in vain
(`waited_cause`).
-/
import Autofork.Proofs.Bookkeeping
import Autofork.Proofs.Delivery
import Autofork.Proofs.Quiet
import Autofork.Proofs.Sightings

namespace Autofork

open Lib

-- =============================================================== handlers

/-- A handler, by whether it has opened its session, and whether an await
of it has been cut short. -/
def Job.patience (job : Job) : Prog.Typestate Op Op.Res (Bool × Bool) where
  ok _
    | .register a | .snapshot a => job.polls a
    | .write (.stop ev _) => job.polls ev.sessionId
    | .select _ => ∃ a, job.polls a
    | _ => True
  next m
    | .write (.stop ..), _ => (true, m.2)
    | .select _, branch => (m.1, m.2 || branch != .timer)
    | _, _ => m
  valid m
    | .snapshot _, r => m.1 = true → r.isSome = true
    | .select sleepSecs, branch => sleepSecs = none → branch ≠ .timer
    | _, _ => True

/-- What a handler answers its client. -/
def Heeds (job : Job) (client : Bool) (m : Bool × Bool)
    (body : ResponseBody) : Prop :=
  client = true → body = .waited → m.2 = true ∧ ∃ a, job.polls a

/-- An operation that has nothing to do with waiting. -/
def Op.aloof : Op → Bool
  | .register _ | .snapshot _ | .select _ | .write (.stop ..) => false
  | _ => true

/-- A program of such operations. -/
abbrev Aloof {α : Type} (p : Handler α) : Prop :=
  p.Every fun op => op.aloof = true

theorem aloof_go {op : Op} (h : op.aloof = true) : Aloof op.go :=
  ⟨h, fun _ => trivial⟩

theorem Sifts.aloof {α : Type} {p : Handler α} (h : Sifts p) : Aloof p := by
  refine Prog.Every.mono (fun op hop => ?_) h
  cases op with
  | write x => cases x <;> first | rfl | cases hop
  | _ => first | rfl | cases hop

theorem Chooses.aloof {α : Type} {p : Handler α} (h : Chooses p) :
    Aloof p := by
  refine Prog.Every.mono (fun op hop => ?_) h
  cases op <;> first | rfl | cases hop

theorem aloof_selectForks (session : SessionRow) (cfg : Config)
    (moments : List ForkMoment) : Aloof (selectForks session cfg moments) := by
  refine Prog.Every.bind ?_ fun _ => (aloof_go rfl).bind fun roster =>
    (aloof_go rfl).bind fun t => (chooses_considerAll ..).aloof
  exact (aloof_go rfl).bind fun entries => aloof_go rfl

theorem aloof_dueNow (w : Watch) : Aloof (dueNow w) := by
  refine (aloof_go rfl).bind fun t => ?_
  split
  · trivial
  · exact (aloof_selectForks ..).bind fun _ => trivial

theorem aloof_buildWake (session : SessionRow)
    (selected : List SelectedFork) : Aloof (buildWake session selected) := by
  unfold buildWake
  split
  · trivial
  · exact (aloof_go rfl).bind fun t => (aloof_go rfl).bind fun _ =>
      (aloof_go rfl).bind fun _ => trivial

theorem aloof_releaseDue (session : SessionRow) :
    Aloof (releaseDue session) := by
  refine (aloof_go rfl).bind fun released => ?_
  split
  · trivial
  · exact (aloof_go rfl).bind fun _ => (aloof_go rfl).bind fun _ => trivial

section typed

variable {job : Job} {a : String}

theorem Aloof.typed {α : Type} {p : Handler α} (h : Aloof p)
    (m : Bool × Bool) : p.Typed job.patience (fun m' _ => m' = m) m := by
  refine Prog.Every.typed (I := (· = m)) rfl (h.mono fun op hop m' hm => ?_)
  cases op with
  | write x => cases x <;> first | exact ⟨trivial, fun _ _ => hm⟩ | cases hop
  | _ => first | exact ⟨trivial, fun _ _ => hm⟩ | cases hop

theorem Aloof.then {α β : Type} {p : Handler α} {f : α → Handler β}
    {Q : Bool × Bool → β → Prop} {m : Bool × Bool} (h : Aloof p)
    (hf : ∀ r, (f r).Typed job.patience Q m) :
    (p >>= f).Typed job.patience Q m :=
  (h.typed m).bind fun _ r hm => hm ▸ hf r

/-- What a poll that has not been cut short does from here on. -/
abbrev Awaits (job : Job) (p : Handler ResponseBody) : Prop :=
  p.Typed job.patience (Heeds job true) (true, false)

theorem parkForever_awaits (ha : job.polls a) : Awaits job parkForever := by
  refine ⟨⟨a, ha⟩, fun branch hbranch _ _ => ⟨?_, a, ha⟩⟩
  show (false || branch != .timer) = true
  simpa using hbranch rfl

theorem issueWake_awaits (ha : job.polls a) (w : Watch) :
    Awaits job (issueWake w) := by
  refine (aloof_go rfl).then fun t => (aloof_selectForks ..).then
    fun selected => (aloof_buildWake ..).then fun payload => ?_
  cases payload with
  | some payload => exact fun _ h => by cases h
  | none => exact parkForever_awaits ha

theorem debounceWake_awaits (ha : job.polls a) (w : Watch) :
    Awaits job (debounceWake w) := by
  unfold debounceWake
  split
  · refine ⟨⟨a, ha⟩, fun branch _ => ?_⟩
    cases branch with
    | timer => exact issueWake_awaits ha w
    | _ => exact fun _ _ => ⟨rfl, a, ha⟩
  · exact issueWake_awaits ha w

theorem serveDeadlines_awaits (ha : job.polls a) (w : Watch)
    (deadlines : List Nat) : Awaits job (serveDeadlines w deadlines) := by
  induction deadlines with
  | nil => exact parkForever_awaits ha
  | cons d rest ih =>
      refine (aloof_go rfl).then fun t => ⟨⟨a, ha⟩, fun branch _ => ?_⟩
      cases branch with
      | timer =>
          refine (aloof_dueNow w).then fun due => ?_
          cases due with
          | true => exact debounceWake_awaits ha w
          | false => exact ih
      | _ => exact fun _ _ => ⟨rfl, a, ha⟩

theorem parkedPoll_awaits {ev : Event} (ha : job.polls ev.sessionId) (t : Int)
    (promptTokens : Option Nat) (cfg : Config) :
    Awaits job (parkedPoll ev t promptTokens cfg) := by
  refine ⟨ha, fun session hsession => ?_⟩
  cases session with
  | none => cases hsession rfl
  | some session =>
      refine (aloof_releaseDue session).then fun payload => ?_
      cases payload with
      | some payload => exact fun _ h => by cases h
      | none =>
          refine (aloof_go rfl).then fun entries =>
            (aloof_dueNow _).then fun due => ?_
          cases due with
          | true => exact debounceWake_awaits ha _
          | false => exact serveDeadlines_awaits ha _ _

theorem handleStopWait_patience (ev : Event) :
    (handleStopWait ev).Typed (Job.patience (.request (.stopWait ev)))
      (Heeds (.request (.stopWait ev)) true) (false, false) := by
  have hpoll : Job.polls ev.sessionId (.request (.stopWait ev)) := rfl
  refine (aloof_go rfl).then fun _ => (aloof_go rfl).then fun t =>
    ⟨hpoll, fun _ _ => ?_⟩
  refine (sifts_ingestTranscript ev).aloof.then fun promptTokens =>
    (aloof_go rfl).then fun cfg => ⟨hpoll, fun _ _ => ?_⟩
  refine (aloof_go rfl).then fun _ =>
    (parkedPoll_awaits hpoll t promptTokens cfg).bind fun m body hbody => ?_
  exact ⟨trivial, fun _ _ => hbody⟩

/-- What is not a poll answers something else. -/
theorem handleEvent_patience (ev : Event) :
    (handleEvent ev).Typed job.patience (Heeds job true) (false, false) := by
  refine (aloof_go rfl).then fun _ => (aloof_go rfl).then fun t => ?_
  split
  · exact (aloof_go rfl).then fun _ _ h => by cases h
  · exact (sifts_classifyPrompt ev t).aloof.then fun waking =>
      (aloof_go rfl).then fun _ => (aloof_go rfl).then fun _ _ h => by cases h
  · exact (aloof_go rfl).then fun _ => (aloof_go rfl).then fun _ _ h => by cases h
  · exact fun _ h => by cases h

theorem closeAll_patience (sessions : List String) (client : Bool) :
    (closeAll sessions).Typed job.patience (Heeds job client)
      (false, false) := by
  induction sessions with
  | nil => exact fun _ h => by cases h
  | cons a rest ih => exact (aloof_go rfl).then fun _ => ih

theorem handler_patience (job : Job) (client : Bool) :
    job.handler.Typed job.patience (Heeds job client) (false, false) := by
  have hweaken : ∀ {p : Handler ResponseBody},
      p.Typed job.patience (Heeds job true) (false, false) →
      p.Typed job.patience (Heeds job client) (false, false) :=
    fun hp => hp.mono fun m body h _ => h rfl
  cases job with
  | request req =>
      cases req with
      | event ev => exact hweaken (handleEvent_patience ev)
      | stopWait ev => exact hweaken (handleStopWait_patience ev)
      | prune =>
          exact (aloof_go rfl).then fun t =>
            (aloof_go rfl).then fun stale _ h => by cases h
  | reap =>
      exact (aloof_go rfl).then fun cutoffs => closeAll_patience cutoffs client
  | grace b gen =>
      refine (aloof_go rfl).then fun due => ?_
      cases due with
      | true => exact (aloof_go rfl).then fun _ _ h => by cases h
      | false => exact fun _ h => by cases h

/-- A poll that is lost answers nobody. -/
theorem onPollLost_patience (b : String) (parked : Bool) :
    (onPollLost b parked).Typed job.patience (Heeds job false)
      (false, false) := by
  refine (aloof_go rfl).then fun gen => (aloof_go rfl).then fun _ =>
    (aloof_go rfl).then fun _ => ?_
  cases parked with
  | true => exact (aloof_go rfl).then fun _ h => by cases h
  | false => exact fun h => by cases h

end typed

-- ====================================================== among the others

/-- How an await ends. -/
theorem exec_branch {k : Nat} {sleepSecs : Option Nat} {tick : Tick}
    {d d' : Daemon} {branch : Branch}
    (h : exec k (.select sleepSecs) tick d = some (d', branch)) :
    (sleepSecs = none → branch ≠ .timer)
      ∧ (branch ≠ .timer → d.signalled k = true ∨ tick.branch = .shutdown) := by
  simp only [exec] at h
  split at h
  · split at h
    next hsleep =>
      cases h
      refine ⟨fun hnone => ?_, fun hne => absurd rfl hne⟩
      rw [hnone] at hsleep
      cases hsleep
    next => cases h
  · split at h
    next hsignalled =>
      cases h
      exact ⟨fun _ => (by simp), fun _ => .inl hsignalled⟩
    next => cases h
  next hshutdown =>
    cases h
    exact ⟨fun _ => (by simp), fun _ => .inr hshutdown⟩

/-- What an operation returns, and what it makes of a handler. -/
private theorem exec_patience {job : Job} {k : Nat} {op : Op} {tick : Tick}
    {d d' : Daemon} {r : op.Res} (hex : exec k op tick d = some (d', r))
    {m : Bool × Bool} (hok : job.patience.ok m op)
    (hm : m.1 = true → ∀ a, job.polls a → d.store.Knows a) :
    job.patience.valid m op r
      ∧ ((job.patience.next m op r).1 = true →
        ∀ a, job.polls a → d'.store.Knows a)
      ∧ ((job.patience.next m op r).2 = true → m.2 = true
        ∨ ((∃ a, job.polls a) ∧ op.awaits = true
          ∧ (d.signalled k = true ∨ tick.branch = .shutdown))) := by
  have hkept : m.1 = true → ∀ a, job.polls a → d'.store.Knows a :=
    fun h a ha => World.knows_exec hex (hm h a ha)
  cases op with
  | write x =>
      cases x with
      | stop ev t =>
          refine ⟨trivial, fun _ a ha => ?_, .inl⟩
          obtain rfl : ev.sessionId = a := Job.polls_unique hok ha
          cases hex
          exact knows_recordStop d.store ev t
      | _ => exact ⟨trivial, hkept, .inl⟩
  | snapshot b =>
      refine ⟨fun h => ?_, hkept, .inl⟩
      have hb := hm h b hok
      simp only [exec] at hex
      split at hex
      next session hget =>
        cases hex
        rfl
      next hget =>
        rw [Store.getSession, Option.map_eq_none_iff] at hget
        unfold Store.Knows at hb
        rw [hget] at hb
        cases hb
  | select sleepSecs =>
      obtain ⟨htimer, hcut⟩ := exec_branch hex
      refine ⟨htimer, hkept, fun h => ?_⟩
      by_cases hbranch : r = .timer
      · rw [hbranch] at h
        exact .inl (by simpa [Job.patience] using h)
      · exact .inr ⟨hok, rfl, hcut hbranch⟩
  | _ => exact ⟨trivial, hkept, .inl⟩

namespace World

/-- How the handlers stand, when the polls in `X` may be cut short. -/
structure Waits (X : Nat → Prop) (w : World) : Prop where
  numbered : w.Numbered
  typed : ∀ k task, w.tasks k = some task → ∃ m,
    (m.1 = true → ∀ a, task.job.polls a → w.daemon.store.Knows a)
      ∧ (m.2 = true → task.client = true → X k)
      ∧ task.prog.Typed task.job.patience (Heeds task.job task.client) m
  answered : ∀ k, .answered k .waited ∈ w.daemon.log →
    ∃ job a, w.jobs[k]? = some job ∧ job.polls a
  registered : ∀ k a, .registered k a ∈ w.daemon.log →
    ∃ job, w.jobs[k]? = some job ∧ job.polls a

theorem waits_init (X : Nat → Prop) (disk : Disk) : (init disk).Waits X where
  numbered := numbered_init disk
  typed k task ht := by cases ht
  answered k h := by cases h
  registered k a h := by cases h

theorem Waits.mono {X Y : Nat → Prop} (hXY : ∀ k, X k → Y k) {w : World}
    (h : w.Waits X) : w.Waits Y where
  numbered := h.numbered
  typed k task ht := by
    obtain ⟨m, hm, hcut, hp⟩ := h.typed k task ht
    exact ⟨m, hm, fun hm₂ hclient => hXY k (hcut hm₂ hclient), hp⟩
  answered := h.answered
  registered := h.registered

/-- A poll that is about to answer that it has waited has been cut
short. -/
theorem Waits.of_ret {X : Nat → Prop} {w : World} (h : w.Waits X) {k : Nat}
    {task : Task} (ht : w.tasks k = some task) (hprog : task.prog = .ret .waited)
    (hclient : task.client = true) : X k ∧ ∃ a, task.job.polls a := by
  obtain ⟨m, -, hx, hp⟩ := h.typed k task ht
  rw [hprog] at hp
  obtain ⟨hm₂, hpolls⟩ := hp hclient rfl
  exact ⟨hx hm₂ hclient, hpolls⟩

/-- A step keeps it, if it cuts short no poll but one in `X`. -/
theorem waits_step {X : Nat → Prop} {w : World} (h : w.Waits X) (act : Act)
    (hsignalled : ∀ k, w.daemon.signalled k = true → X k)
    (hcut : ∀ k tick task op a, act = .move k tick → w.tasks k = some task →
      task.client = true → task.job.polls a → w.about k = some op →
      op.awaits = true → tick.branch = .shutdown → X k) :
    (w.step act).Waits X where
  numbered := numbered_step h.numbered act
  typed k task ht := by
    rcases step_tasks ht with hold | ⟨job, client, -, -, -, rfl⟩
      | ⟨old, op, f, tick, d, r, hact, hold, hprog, hex, hd, rfl⟩
      | ⟨ev, started, op, f, -, -, -, rfl⟩
    · obtain ⟨m, hm, hx, hp⟩ := h.typed k task hold
      exact ⟨m, fun h₁ a ha => knows_step act (hm h₁ a ha), hx, hp⟩
    · exact ⟨(false, false), fun h₁ => (by cases h₁), fun h₂ => (by cases h₂),
        handler_patience job client⟩
    · obtain ⟨m, hm, hx, hp⟩ := h.typed k old hold
      have hab := about_of_prog hold hprog
      rw [hprog] at hp
      obtain ⟨hvalid, hknown, hnext⟩ := exec_patience hex hp.1 hm
      refine ⟨_, by rw [hd]; exact hknown, fun h₂ hclient => ?_, hp.2 r hvalid⟩
      rcases hnext h₂ with hm₂ | ⟨⟨a, ha⟩, hawaits, hsig | hshutdown⟩
      · exact hx hm₂ hclient
      · exact hsignalled k hsig
      · exact hcut k tick old op a hact hold hclient ha hab hawaits hshutdown
    · exact ⟨(false, false), fun h₁ => (by cases h₁), fun h₂ => (by cases h₂),
        onPollLost_patience ev.sessionId started⟩
  answered k hk := by
    by_cases hold : .answered k .waited ∈ w.daemon.log
    · obtain ⟨job, a, hjob, ha⟩ := h.answered k hold
      exact ⟨job, a, w.jobs_step hjob act, ha⟩
    · obtain ⟨task, ht, hprog, hclient⟩ := answered_new hk hold
      obtain ⟨-, a, ha⟩ := h.of_ret ht hprog hclient
      exact ⟨task.job, a, w.jobs_step (h.numbered k task ht) act, ha⟩
  registered k a hk := by
    have hkeep : .registered k a ∈ w.daemon.log →
        ∃ job, (w.step act).jobs[k]? = some job ∧ job.polls a := by
      intro hold
      obtain ⟨job, hjob, ha⟩ := h.registered k a hold
      exact ⟨job, w.jobs_step hjob act, ha⟩
    rcases w.step_cases act with
      ⟨j, task, op, f, tick, d, r, -, ht, hprog, -, hex, heq⟩
      | ⟨j, tick, task, body, -, -, -, heq⟩ | ⟨disk, graceTimers, heq, -⟩
    · rw [heq] at hk
      rcases (exec_deed hex).2 _ hk with hold | hdeed | haside
      · exact hkeep hold
      · obtain ⟨rfl, rfl⟩ := Op.deed_registered hdeed
        obtain ⟨m, -, -, hp⟩ := h.typed k task ht
        rw [hprog] at hp
        exact ⟨task.job, w.jobs_step (h.numbered k task ht) act, hp.1⟩
      · cases haside
    · rw [heq] at hk
      dsimp only at hk
      split at hk
      · exact hkeep (by simpa using hk)
      · exact hkeep hk
    · rw [heq] at hk
      exact hkeep hk

end World

-- ========================================================= cancellations

/-- A poll that has been sent its cancellation was replaced after it had
registered, or cancelled. -/
def Replaced (w : World) : Prop :=
  ∀ k, w.daemon.signalled k = true →
    ∃ a, Follows (· = .registered k a) (Obs.replaces a) w.daemon.log

private theorem replaced_exec {k : Nat} {op : Op} {tick : Tick}
    {d d' : Daemon} {r : op.Res} (hex : exec k op tick d = some (d', r))
    (hcurrent : ∀ a j, d.waits a = some j →
      Since (· = .registered j a) (Obs.replaces a) d.log)
    (h : ∀ j, d.signalled j = true →
      ∃ a, Follows (· = .registered j a) (Obs.replaces a) d.log) :
    ∀ j, d'.signalled j = true →
      ∃ a, Follows (· = .registered j a) (Obs.replaces a) d'.log := by
  have hkeep : ∀ j, d.signalled j = true →
      ∃ a, Follows (· = .registered j a) (Obs.replaces a) d'.log := by
    intro j hj
    obtain ⟨a, ha⟩ := h j hj
    exact ⟨a, ha.grow (exec_log hex)⟩
  -- whoever is in the slot has registered before this entry
  have hslot : ∀ s j, d.waits s = some j → ∀ o, op.deed k r = some o →
      o.replaces s →
      ∃ a, Follows (· = .registered j a) (Obs.replaces a) d'.log := by
    intro s j hj o hdeed ho
    obtain ⟨x, hx, hreg⟩ := (hcurrent s j hj).exists_mem
    rcases exec_entries hex with ⟨o', hdeed', hlog⟩ | ⟨hnone, -⟩
    · rw [hdeed, Option.some.injEq] at hdeed'
      subst hdeed'
      rw [hlog]
      exact ⟨s, .inl ⟨ho, x, hx, hreg⟩⟩
    · rw [hdeed] at hnone
      cases hnone
  intro j hj
  rcases exec_waits hex with ⟨s, rfl, -, hsig⟩ | ⟨s, rfl, -, hsig⟩
    | ⟨-, -, -, hsig⟩
  · rw [hsig, signalled_signal] at hj
    rcases hj with hj | hj
    · exact hkeep j hj
    · exact hslot s j hj _ rfl rfl
  · rw [hsig, signalled_signal] at hj
    rcases hj with hj | hj
    · exact hkeep j hj
    · exact hslot s j hj _ rfl rfl
  · rw [hsig] at hj
    exact hkeep j hj

theorem replaced_step {w : World} (act : Act) (hcurrent : Current w)
    (h : Replaced w) : Replaced (w.step act) := by
  intro j hj
  have hlog := w.step_log act
  rcases w.step_cases act with
    ⟨k, task, op, f, tick, d, r, -, -, -, -, hex, heq⟩
    | ⟨k, tick, task, body, -, -, -, heq⟩ | ⟨disk, graceTimers, heq, -⟩
  · rw [heq] at hj ⊢
    exact replaced_exec hex hcurrent h j hj
  · rw [heq] at hj
    obtain ⟨a, ha⟩ := h j hj
    exact ⟨a, ha.grow hlog⟩
  · rw [heq] at hj
    obtain ⟨a, ha⟩ := h j hj
    exact ⟨a, ha.grow hlog⟩

-- ============================================================ the service

namespace Service

variable {reader : LineReader} {said : Nat → Sayings}

/-- Poll `k` has been replaced or cancelled, or the process has been told
to go down. -/
def Cut (s : Service) (k : Nat) : Prop :=
  s.told = true ∨ ∃ a,
    Follows (· = .registered k a) (Obs.replaces a) s.world.daemon.log

/-- How the handlers stand, and who has been told. -/
structure Heeding (s : Service) : Prop where
  notified : ∀ k, s.notified k = true → s.told = true
  waits : s.world.Waits s.Cut
  current : Current s.world
  replaced : Replaced s.world

theorem step_told {s : Service} (m : Move) (h : s.told = true) :
    (s.step reader m).told = true := by
  rcases s.step_control reader m with
    hsteady | ⟨_, _, _, _, -, -, -, htold, -⟩ | ⟨now, -, hmoved⟩
      | ⟨-, -, hmoved⟩ | ⟨_, -, -, hmoved⟩
  · exact hsteady.told.trans h
  · exact htold.trans h
  · rw [hmoved]
    exact (s.quietReaper_control now).1.2 (.inl h)
  · rw [hmoved]
    rfl
  · rw [hmoved]
    exact h

/-- A notification reaches nobody before it is sent. -/
theorem step_notified {s : Service} (m : Move)
    (h : ∀ k, s.notified k = true → s.told = true) (k : Nat)
    (hk : (s.step reader m).notified k = true) :
    (s.step reader m).told = true := by
  rcases s.step_control reader m with
    hsteady | ⟨_, _, _, _, -, -, -, htold, -, hsame⟩ | ⟨now, -, hmoved⟩
      | ⟨-, -, hmoved⟩ | ⟨_, -, -, hmoved⟩
  · exact hsteady.told.trans (h k (hsteady.notified k hk))
  · rw [hsame] at hk
    exact htold.trans (h k hk)
  · rw [hmoved] at hk ⊢
    rcases s.quietReaper_notified hk with hold | htold
    · exact (s.quietReaper_control now).1.2 (.inl (h k hold))
    · exact htold
  · rw [hmoved]
    rfl
  · rw [hmoved] at hk ⊢
    exact h k hk

/-- A poll leaves its await for a shutdown when a notification has
reached it. -/
private theorem notified_of_enabled {s : Service} {k : Nat} {tick : Tick}
    {op : Op} (hen : s.enabled k tick = true) (hab : s.world.about k = some op)
    (hawaits : op.awaits = true) (hbranch : tick.branch = .shutdown) :
    s.notified k = true := by
  unfold enabled at hen
  rw [hab] at hen
  have hboth : (exec k op tick s.world.daemon).isSome = true
      ∧ s.notified k = true := by simpa [hawaits, hbranch] using hen
  exact hboth.2

/-- What a connection's task has a poll do leaves an await for a shutdown
only so. -/
private theorem Worked.told {s : Service} (h : s.Heeding)
    (hserviced : s.Serviced reader said) {c : Nat} {conn conn' : Conn}
    {draw : Chance} {k : Nat} {tick : Tick} {task : Task} {op : Op}
    (hw : Worked reader s draw conn conn' (some (.move k tick)))
    (hc : s.conns[c]? = some conn) (ht : s.world.tasks k = some task)
    (hclient : task.client = true) (hab : s.world.about k = some op)
    (hawaits : op.awaits = true) (hbranch : tick.branch = .shutdown) :
    s.told = true := by
  generalize hact : some (Act.move k tick) = a at hw
  cases hw with
  | advance hwaits ht' hprog hen =>
      cases hact
      exact h.notified k (notified_of_enabled hen hab hawaits hbranch)
  | @answer _ _ task' _ hwaits ht' hprog =>
      cases hact
      cases task'
      cases hprog
      rw [World.about, ht'] at hab
      cases hab
  | unwind hlosing ht' =>
      cases hact
      have hat := (hserviced.sound c conn hc).stands
      rw [hlosing] at hat
      rw [hat.2 task ht] at hclient
      cases hclient
  | _ => cases hact

/-- A poll is served by its connection. -/
private theorem Unasked.polls_not {s : Service} (h : s.Heeding) {k : Nat}
    {tick : Tick} {task : Task} {b : String}
    (hunasked : Unasked s (.move k tick)) (ht : s.world.tasks k = some task) :
    ¬task.job.polls b := by
  intro hpolls
  cases hunasked with
  | turn _ hback =>
      unfold World.background at hback
      rw [h.waits.numbered k task ht] at hback
      cases hjob : task.job with
      | request req => rw [hjob] at hback; cases hback
      | _ => rw [hjob] at hpolls; cases hpolls

theorem Cut.mono {s s' : Service} {k : Nat} (h : s.Cut k)
    (htold : s.told = true → s'.told = true)
    (hlog : s.world.daemon.log <:+ s'.world.daemon.log) : s'.Cut k := by
  rcases h with h | ⟨a, h⟩
  · exact .inl (htold h)
  · exact .inr ⟨a, h.grow hlog⟩

theorem heeding_step {s : Service} (h : s.Heeding)
    (hserviced : s.Serviced reader said) (m : Move) :
    (s.step reader m).Heeding := by
  have htold : s.told = true → (s.step reader m).told = true := step_told m
  obtain ⟨a, hworld, hwhy⟩ : ∃ a, (s.step reader m).world = s.world.took a
      ∧ ∀ k tick task op b, a = some (.move k tick) →
        s.world.tasks k = some task → task.client = true →
        task.job.polls b → s.world.about k = some op → op.awaits = true →
        tick.branch = .shutdown → s.told = true := by
    rcases s.step_cases reader m with
      ⟨c, conn, draw, conn', a, -, hc, hw, hg⟩ | ⟨-, -, -, a, hworld, ha⟩
    · refine ⟨a, hg.world, ?_⟩
      intro k tick task op b hact ht hclient _ hab hawaits hbranch
      rw [hact] at hw
      exact Worked.told h hserviced hw hc ht hclient hab hawaits hbranch
    · refine ⟨a, hworld, ?_⟩
      intro k tick task op b hact ht _ hpolls
      exact absurd hpolls (Unasked.polls_not h (ha _ hact).1 ht)
  have hlog : s.world.daemon.log <:+ (s.step reader m).world.daemon.log := by
    rw [hworld]
    exact took_log s.world a
  have hwaits : s.world.Waits (s.step reader m).Cut :=
    h.waits.mono fun k hk => hk.mono htold hlog
  refine ⟨step_notified m h.notified, ?_, ?_, ?_⟩
  · rw [hworld]
    cases a with
    | none => exact hwaits
    | some act =>
        refine World.waits_step hwaits act ?_ ?_
        · intro k hk
          obtain ⟨b, hb⟩ := h.replaced k hk
          exact Cut.mono (.inr ⟨b, hb⟩) htold hlog
        · intro k tick task op b hact ht hclient hpolls hab hawaits hbranch
          exact .inl (htold (hwhy k tick task op b (congrArg some hact) ht
            hclient hpolls hab hawaits hbranch))
  · rw [hworld]
    cases a with
    | none => exact h.current
    | some act => exact current_step act h.current
  · rw [hworld]
    cases a with
    | none => exact h.replaced
    | some act => exact replaced_step act h.current h.replaced

theorem heeding_after (reader : LineReader) (boot : Boot) (ms : List Move) :
    (after reader boot ms).Heeding := by
  induction ms using List.reverseRecOn with
  | nil =>
      refine ⟨fun _ hk => (by cases hk), World.waits_init _ _, ?_, ?_⟩
      · exact fun _ _ hk => (by cases hk)
      · exact fun _ hk => (by cases hk)
  | append_singleton ms m ih =>
      rw [after_concat]
      exact heeding_step ih (serviced_after reader boot ms) m

/-- Before a poll answers that it has waited, it has been replaced or
cancelled, or the process been told to go down. -/
theorem cut_before {boot : Boot} {ms : List Move} {k : Nat}
    (hk : .answered k .waited ∈ (after reader boot ms).world.daemon.log) :
    ∃ ps, ps <+: ms
      ∧ .answered k .waited ∉ (after reader boot ps).world.daemon.log
      ∧ (after reader boot ps).world.daemon.log
        <:+ (after reader boot ms).world.daemon.log
      ∧ (after reader boot ps).Cut k := by
  induction ms using List.reverseRecOn with
  | nil => cases hk
  | append_singleton ms m ih =>
      obtain ⟨a, hworld, -⟩ := (after reader boot ms).step_world reader m
      have hlog : (after reader boot ms).world.daemon.log
          <:+ (after reader boot (ms ++ [m])).world.daemon.log := by
        rw [after_concat, hworld]
        exact took_log _ a
      by_cases hold :
        .answered k .waited ∈ (after reader boot ms).world.daemon.log
      · obtain ⟨ps, hps, hnot, hgrow, hcut⟩ := ih hold
        exact ⟨ps, hps.trans (List.prefix_append ..), hnot, hgrow.trans hlog,
          hcut⟩
      · refine ⟨ms, List.prefix_append .., hold, hlog, ?_⟩
        rw [after_concat, hworld] at hk
        cases a with
        | none => exact absurd hk hold
        | some act =>
            obtain ⟨task, ht, hprog, hclient⟩ := World.answered_new hk hold
            exact ((heeding_after reader boot ms).waits.of_ret ht hprog
              hclient).1

end Service

/-- What is refused has not waited. -/
theorem ne_waited_of_answered {reader : LineReader} {line : String}
    {resp : Protocol.Response} (h : reader.reaction line = .answered resp) :
    resp.body ≠ .waited := by
  unfold LineReader.reaction Protocol.handleLine at h
  split at h
  next => cases h
  next =>
    split at h
    next =>
      cases h
      exact fun hb => by cases hb
    next req hreq =>
      unfold Protocol.Request.reaction at h
      split at h
      next =>
        cases h
        exact fun hb => by cases hb
      next => split at h <;> cases h

variable {reader : LineReader} {boot : Boot} {ms : List Move}

open Service in
/-- A client that reads that it has waited had asked for a poll. Before
the poll was answered another one of its session had come, or a prompt
or an end of the session, or the daemon had been told to go down. -/
theorem waited_cause {c : Nat} {conn : Conn}
    (hc : (after reader boot ms).conns[c]? = some conn)
    {n : Nat} {resp : Protocol.Response} (hsent : (n, resp) ∈ conn.sent)
    (hwaited : resp.body = .waited) :
    ∃ (line : String) (id : UInt64) (ev : Event) (k : Nat) (ps : List Move),
      conn.heard[n]? = some line ∧ reader.reaction line = .parked id ev
        ∧ resp = Protocol.reply id .waited ∧ (n, k) ∈ conn.tasks ∧ ps <+: ms
        ∧ .answered k .waited ∉ (after reader boot ps).world.daemon.log
        ∧ (Follows (· = .registered k ev.sessionId) (Obs.replaces ev.sessionId)
            (after reader boot ps).world.daemon.log
          ∨ (∃ cs, cs <+: ps ∧ (after reader boot cs).reaper = .leaving)
          ∨ Asked reader (after reader boot ps)) := by
  have h := serviced_after reader boot ms
  have hwaits := (heeding_after reader boot ms).waits
  obtain ⟨line, hline, hdue⟩ := (h.sound c conn hc).due (n, resp) hsent
  dsimp only at hline hdue
  generalize hreact : reader.reaction line = reaction at hdue
  cases hdue with
  | refused => exact absurd hwaited (ne_waited_of_answered hreact)
  | plain id hplain =>
      obtain ⟨_, _, -, hplain⟩ := hplain
      cases hplain <;> cases hwaited
  | @handled _ id req k body hasks htask hlog =>
      obtain rfl : body = .waited := by
        cases body <;> cases hwaited
        rfl
      obtain ⟨job, a, hjob, hpolls⟩ := hwaits.answered k hlog
      obtain ⟨line', id', req', hline', hasks', hreq⟩ :=
        (h.sound c conn hc).asked (n, k) htask
      rw [hline, Option.some.injEq] at hline'
      subst hline'
      rw [hreact, hasks, Option.some.injEq, Prod.mk.injEq] at hasks'
      obtain ⟨rfl, rfl⟩ := hasks'
      rw [hjob, Option.some.injEq] at hreq
      subst hreq
      obtain ⟨ps, hps, hnot, hgrow, hcut⟩ := cut_before hlog
      cases req with
      | stopWait ev =>
          have hparked : reader.reaction line = .parked id ev :=
            parked_of_taskOf (by rw [hreact]; exact hasks)
          refine ⟨line, id, ev, k, ps, hline, hparked, rfl, htask, hps, hnot, ?_⟩
          rcases hcut with htold | ⟨b, hfollows⟩
          · exact .inr (told_cause reader boot ps (.inl htold))
          · -- what was replaced is the poll of its own session
            obtain ⟨o, ho, rfl⟩ := hfollows.exists_mem
            obtain ⟨job', hjob', hb⟩ := hwaits.registered k b (hgrow.subset ho)
            rw [hjob, Option.some.injEq] at hjob'
            subst hjob'
            cases hb
            exact .inl hfollows
      | _ => cases hpolls

/-- A second client polls the session of the first, which is parked. -/
private def relieved : List Move :=
  woken.take 6 ++ List.replicate 20 (.work 0 {})
    ++ [.accept, .work 1 {}, .work 1 {}, .arrive 1 "poll"]
    ++ List.replicate 10 (.work 1 {})
    ++ List.replicate 10 (.work 0 { branch := .cancelled })

/-- The first is answered, and its answer has a cause. -/
theorem waited_cause_replaced :
    ∃ conn, (Service.after .polling .minutely relieved).conns[0]? = some conn
      ∧ ∃ k ps, (0, k) ∈ conn.tasks ∧ ps <+: relieved
        ∧ .answered k .waited
          ∉ (Service.after .polling .minutely ps).world.daemon.log := by
  have hrun : (Service.after .polling .minutely relieved).conns[0]?.map
      (fun conn => (conn.sent.head?.map fun p => (p.1, match p.2.body with
        | .waited => true
        | _ => false))) = some (some (0, true)) := by decide +kernel
  obtain ⟨conn, hc, hsent⟩ := Option.map_eq_some_iff.1 hrun
  obtain ⟨⟨n, resp⟩, hhead, hwaited⟩ := Option.map_eq_some_iff.1 hsent
  simp only [Prod.mk.injEq] at hwaited
  obtain ⟨rfl, hwaited⟩ := hwaited
  split at hwaited
  next hbody =>
    obtain ⟨_, _, _, k, ps, -, -, -, hn, hps, hnot, -⟩ :=
      waited_cause hc (List.mem_of_mem_head? hhead) hbody
    exact ⟨conn, hc, k, ps, hn, hps, hnot⟩
  next => cases hwaited

end Autofork
