/-
No idle wake is early.

The wake of a fork that is due when its session has been idle for `d`
seconds comes at least `d` seconds after some Stop of the session, with
no genuine prompt in between (`idle_wake_not_early`). This is so in
every run in which a poll goes from await to await in one step, a prompt
cancels in the step that records it, and a poll that was cancelled is
over (`punctual`).

# What a parked poll may rest on

A poll works from the baseline it found on its arrival. Since then
wake-turn Stops, continuations, other polls and closes may have come and
gone: what matters is that no genuine prompt has. Such a prompt sends
its cancellation to whichever poll is registered, and a poll that
registered before it has either been replaced since, and was cancelled
then, or is that one. So what follows a poll's registration has a
cancellation in it only if the poll was signalled (`Vigil.heeded`), and
a genuine prompt only if a cancellation followed it or is about to
(`Vigil.heard`).
-/
import Autofork.Proofs.MidTurn
import Autofork.Proofs.Pauses
import Autofork.Proofs.Watching

namespace Autofork

open Lib

-- =========================================================== whole steps

namespace World

/-- Task `j` is inside a step: a poll between two awaits, or a prompt
between its record and its cancellation. -/
def midStep (w : World) (j : Nat) : Bool :=
  match w.tasks j with
  | some ⟨.request (.stopWait _), true, true, .call op _⟩ => !op.awaits
  | some ⟨.request (.event ev), _, _, .call (.cancelWait _) _⟩ =>
      ev.event == .promptSubmit
  | _ => false

/-- The action moves no task while another is inside a step. -/
def stepwise (w : World) : Act → Bool
  | .move k _ => (List.range w.jobs.length).all fun j =>
      j == k || !w.midStep j
  | _ => true

/-- A poll that was cancelled is not woken by its timer any more. -/
def heeding (w : World) : Act → Bool
  | .move k tick => match w.about k with
      | some (.select _) => !(tick.branch == .timer && w.daemon.signalled k)
      | _ => true
  | _ => true

end World

/-- The entry is no clock reading later than `t`. -/
def Obs.readBy (t : Int) : Obs → Bool
  | .clock _ t' => decide (t' ≤ t)
  | _ => true

namespace World

/-- The clock does not go back inside an issuance, which reads it three
times and logs nothing else. -/
def atOnce (w : World) : Act → Bool
  | .move k _ => match w.about k with
      | some (.write (.stamp _ _ t)) => (w.daemon.log.take 3).all (Obs.readBy t)
      | _ => true
  | _ => true

/-- Arrivals, cancellations and issuances are single steps. -/
def punctual (w : World) (act : Act) : Bool :=
  w.stepwise act && w.heeding act && w.atOnce act

end World

/-- The clock shows a time below 2⁶² seconds. -/
def Act.brief (act : Act) : Bool := act.reading.all fun t => decide (Brief t)

-- ============================================================= telling

/-- What a prompt owes: the cancellation of the session whose genuine
prompt it has just recorded. -/
def telling (prompts : Prop) : Prog.Typestate Op Op.Res (Option String) where
  ok m
    | .write (.stop ..) | .write (.stamp ..) => False
    | .write (.prompt ..) => m = none ∧ prompts
    | .cancelWait sessionId => ∀ a, m = some a → sessionId = a
    | _ => m = none
  next _
    | .write (.prompt ev waking _), _ =>
        if waking then some ev.sessionId else none
    | _, _ => none

section telling

variable {prompts : Prop}

private theorem ingestTranscript_telling (ev : Event) :
    (ingestTranscript ev).Typed (telling prompts) (fun m _ => m = none)
      none := by
  unfold ingestTranscript
  split
  · rfl
  · refine ⟨rfl, fun session _ => ?_⟩
    cases session with
    | none => rfl
    | some session =>
        refine ⟨rfl, fun delta _ => ?_⟩
        cases delta with
        | none => rfl
        | some delta => exact ⟨rfl, fun t _ => ⟨rfl, fun _ _ => rfl⟩⟩

private theorem classifyPrompt_telling (ev : Event) (t : Int) :
    (classifyPrompt ev t).Typed (telling prompts) (fun m _ => m = none)
      none := by
  have hrecent : (do
      let recent ← (Op.recentlyWoke ev.sessionId t).go
      pure (!recent) : Handler Bool).Typed (telling prompts)
      (fun m _ => m = none) none := ⟨rfl, fun _ _ => rfl⟩
  unfold classifyPrompt
  split
  · refine (ingestTranscript_telling ev).bind fun m _ hm => ?_
    rw [hm]
    refine ⟨rfl, fun matched _ => ?_⟩
    cases matched with
    | true => rfl
    | false => exact hrecent
  · split
    · rfl
    · exact hrecent

/-- A prompt cancels right after it has recorded itself. -/
theorem handleEvent_telling (ev : Event) :
    (handleEvent ev).Typed (telling (ev.event = .promptSubmit))
      (fun m _ => m = none) none := by
  cases hev : ev.event with
  | sessionStart =>
      refine ⟨rfl, fun _ _ => ⟨rfl, fun t _ => ?_⟩⟩
      rw [hev]
      exact ⟨rfl, fun _ _ => rfl⟩
  | promptSubmit =>
      refine ⟨rfl, fun _ _ => ⟨rfl, fun t _ => ?_⟩⟩
      rw [hev]
      refine (classifyPrompt_telling ev t).bind fun m waking hm => ?_
      refine ⟨⟨hm, rfl⟩, fun _ _ => ⟨fun a ha => ?_, fun _ _ => rfl⟩⟩
      cases waking with
      | true => exact Option.some.inj ha
      | false => cases ha
  | sessionEnd =>
      refine ⟨rfl, fun _ _ => ⟨rfl, fun t _ => ?_⟩⟩
      rw [hev]
      exact ⟨fun a ha => (by cases ha), fun _ _ => ⟨rfl, fun _ _ => rfl⟩⟩
  | stop =>
      refine ⟨rfl, fun _ _ => ⟨rfl, fun t _ => ?_⟩⟩
      rw [hev]
      rfl

end telling

-- ================================================== what a poll knows

/-- What poll `k` of session `a` knows is so, as far as the log goes. -/
structure Clear (k : Nat) (a : String) (m : Sight) (l : List Obs) :
    Prop where
  base : ∀ b, m.base = some b → Since (StoppedAt a b) (Genuine a) l
  registered : m.registered = true → .registered k a ∈ l
  cfg : ∀ cfg, m.cfg = some cfg → .configured k cfg ∈ l
  readings : m.readings.map (.clock k) <+: l

section clear

variable {k : Nat} {a : String} {m : Sight} {l : List Obs}

theorem Clear.start (k : Nat) (a : String) (l : List Obs) :
    Clear k a {} l where
  base b hb := by cases hb
  registered h := by cases h
  cfg cfg h := by cases h
  readings := List.nil_prefix

/-- Entries that tell of no genuine prompt take nothing back. -/
theorem Clear.grow (h : Clear k a m l) {obs : List Obs}
    (hobs : ∀ o ∈ obs, ¬Genuine a o) :
    Clear k a { m with readings := [] } (obs ++ l) where
  base b hb := since_grow hobs (h.base b hb)
  registered hr := List.mem_append_right _ (h.registered hr)
  cfg cfg hc := List.mem_append_right _ (h.cfg cfg hc)
  readings := List.nil_prefix

/-- Only the record of a prompt is genuine. -/
private theorem not_genuine_of_run {now : Int} {d : Daemon} {x : Section}
    (hx : ∀ ev waking t, x ≠ .prompt ev waking t) :
    ∀ o ∈ (x.run k now d).2.2, ¬Genuine a o := by
  rcases pauseOf_run k now d x a with ⟨ev, t, rfl, -⟩ | ⟨ev, t, rfl, -, -⟩
    | ⟨-, hobs⟩
  · exact absurd rfl (hx ev true t)
  · simp [Section.run, Genuine]
  · exact hobs

/-- What a poll learns from a section it may run. -/
private theorem clear_write {x : Section} {now : Int} {d : Daemon}
    {r : x.Res} (h : Clear k a m d.log) (hok : (watching a).ok m (.write x)) :
    Clear k a ((watching a).next m (.write x) r)
      ((x.run k now d).2.2 ++ d.log) := by
  have hgrow : (∀ ev waking t, x ≠ .prompt ev waking t) →
      Clear k a { m with readings := [] } ((x.run k now d).2.2 ++ d.log) :=
    fun hx => h.grow (not_genuine_of_run hx)
  cases x with
  | stop ev t =>
      have h' := hgrow (by simp)
      refine ⟨fun b hb => .inl ⟨hok.1, Option.some.inj hb⟩, h'.registered,
        h'.cfg, List.nil_prefix⟩
  | prompt ev waking t => exact absurd hok id
  | queue sessionId entries => exact h
  | _ => exact hgrow (by simp)

/-- What a poll learns from an operation other than an await. -/
private theorem clear_exec {op : Op} {tick : Tick} {d d' : Daemon}
    {r : op.Res} (h : Clear k a m d.log) (hok : (watching a).ok m op)
    (hawait : op.awaits = false) (hpauses : PausesMatch d.store d.log)
    (hex : exec k op tick d = some (d', r)) :
    Clear k a ((watching a).next m op r) d'.log := by
  -- a single entry that is no prompt
  have hone : ∀ o : Obs, ¬Genuine a o →
      Clear k a { m with readings := [] } (o :: d.log) := by
    intro o ho
    have hobs : ∀ o' ∈ [o], ¬Genuine a o' := by simpa using ho
    exact h.grow hobs
  cases op with
  | write x =>
      simp only [exec, Option.some.injEq, Prod.mk.injEq] at hex
      rw [← hex.1]
      exact clear_write h hok
  | select sleepSecs => cases hawait
  | cancelWait sessionId => exact absurd hok id
  | now =>
      simp only [exec, Option.some.injEq, Prod.mk.injEq] at hex
      obtain ⟨rfl, rfl⟩ := hex
      have h' := hone (.clock k tick.now) id
      refine ⟨h'.base, h'.registered, h'.cfg, ?_⟩
      exact (List.prefix_cons_inj _).2 h.readings
  | cfgFor root =>
      simp only [exec, Option.some.injEq, Prod.mk.injEq] at hex
      obtain ⟨rfl, rfl⟩ := hex
      have h' := hone (.configured k (d.disk.cfgFor (some root))) id
      refine ⟨h'.base, h'.registered, fun cfg hc => ?_, List.nil_prefix⟩
      rw [← Option.some.inj hc]
      exact List.mem_cons_self
  | register sessionId =>
      simp only [exec, Option.some.injEq, Prod.mk.injEq] at hex
      rw [← hex.1]
      obtain rfl : sessionId = a := hok
      have h' := hone (.registered k sessionId) id
      exact ⟨h'.base, fun _ => List.mem_cons_self, h'.cfg, List.nil_prefix⟩
  | snapshot sessionId =>
      obtain rfl : sessionId = a := hok
      simp only [exec] at hex
      split at hex
      next session hrow =>
        simp only [Option.some.injEq, Prod.mk.injEq] at hex
        obtain ⟨rfl, rfl⟩ := hex
        have h' := hone (.snapshot k session) id
        refine ⟨fun b hb => ?_, h'.registered, h'.cfg, List.nil_prefix⟩
        have hb : session.pauseStartedAt.or m.base = some b := hb
        rcases Option.or_eq_some_iff.1 hb with hb | ⟨-, hb⟩
        · exact .inr ⟨id, (hpauses.row hrow).2.2 b hb⟩
        · exact h'.base b hb
      next =>
        simp only [Option.some.injEq, Prod.mk.injEq] at hex
        obtain ⟨rfl, rfl⟩ := hex
        exact ⟨h.base, h.registered, h.cfg, List.nil_prefix⟩
  | takePendingClose sessionId gen =>
      simp only [exec] at hex
      split at hex <;> simp only [Option.some.injEq, Prod.mk.injEq] at hex <;>
        rw [← hex.1] <;> exact h
  | _ =>
      simp only [exec, Option.some.injEq, Prod.mk.injEq] at hex
      rw [← hex.1]
      exact h

/-- What the clock, the files and the store tell a poll. -/
private theorem valid_exec {op : Op} {tick : Tick} {d d' : Daemon}
    {r : op.Res} (hnow : Brief tick.now) (hdisk : d.disk.Brief)
    (hpauses : PausesMatch d.store d.log)
    (hbrief : ∀ j s t, .stopped j s t ∈ d.log → Brief t)
    (hex : exec k op tick d = some (d', r)) : (watching a).valid m op r := by
  cases op with
  | now =>
      simp only [exec, Option.some.injEq, Prod.mk.injEq] at hex
      rw [← hex.2]
      exact hnow
  | cfgFor root =>
      simp only [exec, Option.some.injEq, Prod.mk.injEq] at hex
      rw [← hex.2]
      exact hdisk.default _
  | discover dir =>
      simp only [exec, Option.some.injEq, Prod.mk.injEq] at hex
      rw [← hex.2]
      exact hdisk.forks dir
  | snapshot sessionId =>
      simp only [exec] at hex
      split at hex
      next session hrow =>
        simp only [Option.some.injEq, Prod.mk.injEq] at hex
        rw [← hex.2]
        intro x hx
        obtain rfl := Option.some.inj hx
        obtain ⟨hid, -, hbase⟩ := hpauses.row hrow
        refine ⟨hid, fun b hb => ?_⟩
        obtain ⟨o, ho, hstop⟩ := (hbase b hb).exists_mem
        cases o with
        | stopped j s t => exact hstop.2 ▸ hbrief j s t ho
        | _ => cases hstop
      next =>
        simp only [Option.some.injEq, Prod.mk.injEq] at hex
        rw [← hex.2]
        exact fun x hx => by cases hx
  | _ => trivial

end clear

-- ============================================================== the vigil

/-- The entry cancels whichever poll of session `a` is registered. -/
def Cancels (a : String) : Obs → Prop
  | .cancelled _ sessionId => sessionId = a
  | _ => False

/-- What is issued for an idle trigger comes no earlier than its
deadline after some Stop of the session, with no genuine prompt since. -/
def NotEarly : Obs → List Obs → Prop
  | .issued k session selected t, l => ∃ cfg, .configured k cfg ∈ l
      ∧ ∀ x ∈ selected, ∀ s, x.trigger = (ForkRunOn.idle s).label →
        ∃ b, Since (StoppedAt session.sessionId b)
            (Genuine session.sessionId) l
          ∧ b + (s.getD cfg.defaultIdleDeadlineSecs : Int) ≤ t
  | _, _ => True

namespace World

/-- Prompt `p` is about to cancel the poll of session `a`. -/
def Owes (w : World) (p : Nat) (a : String) : Prop :=
  ∃ ev started client f, w.tasks p = some
      ⟨.request (.event ev), started, client, .call (.cancelWait a) f⟩
    ∧ ev.event = .promptSubmit

/-- A task does what its job lets it: a poll with a client watches, from
what it knew when it was last inside a step; an event's handler tells;
the others only shut. -/
inductive Abides (w : World) (k : Nat) (task : Task) : Prop
  | poll (ev : Event) (m : Sight) (l : List Obs)
      (job : task.job = .request (.stopWait ev))
      (client : task.client = true)
      (past : l <:+ w.daemon.log)
      (now : w.midStep k = true → l = w.daemon.log)
      (fresh : task.started = false → m = {})
      (clear : Clear k ev.sessionId m l)
      (typed : task.prog.Typed (watching ev.sessionId) (fun _ _ => True) m)
  | event (ev : Event) (m : Option String)
      (job : task.job = .request (.event ev))
      (typed : task.prog.Typed (telling (ev.event = .promptSubmit))
        (fun m _ => m = none) m)
  | shuts (shuts : Shuts task.prog)

end World

/-- What every such run keeps. -/
structure Vigil (w : World) : Prop where
  numbered : w.Numbered
  pauses : PausesMatch w.daemon.store w.daemon.log
  channels : Channels w
  brief : ∀ k a t, .stopped k a t ∈ w.daemon.log → Brief t
  /-- A cancellation since its registration has reached a poll. -/
  heeded : ∀ k a,
    Follows (· = .registered k a) (Cancels a) w.daemon.log →
    w.daemon.signalled k = true
  /-- A genuine prompt has cancelled, or is about to. -/
  heard : ∀ a, Since (Genuine a) (Cancels a) w.daemon.log →
    ∃ p, w.Owes p a
  abides : ∀ k task, w.tasks k = some task → w.Abides k task
  punctual : Each NotEarly w.daemon.log

-- --------------------------------------------------- one task at a time

section step

variable {w : World} {act : Act}

/-- While a task moves, no other is inside a step. -/
private theorem others_of_stepwise (hn : w.Numbered) {k : Nat} {tick : Tick}
    (h : w.stepwise (.move k tick) = true) :
    ∀ j, j ≠ k → w.midStep j = false := by
  intro j hj
  cases ht : w.tasks j with
  | none => simp [World.midStep, ht]
  | some task =>
      have := List.all_eq_true.1 h j (List.mem_range.2 (hn.lt ht))
      simpa [hj] using this

private theorem midStep_congr {w' : World} {j : Nat}
    (h : w'.tasks j = w.tasks j) : w'.midStep j = w.midStep j := by
  rw [World.midStep, h, World.midStep]

private theorem World.Owes.midStep {p : Nat} {a : String}
    (h : w.Owes p a) : w.midStep p = true := by
  obtain ⟨ev, started, client, f, ht, hev⟩ := h
  simp [World.midStep, ht, hev]

/-- A poll that is moved on from inside a step is inside it. -/
private theorem midStep_poll {k : Nat} {task : Task} {ev : Event} {op : Op}
    {f : op.Res → Handler ResponseBody} (ht : w.tasks k = some task)
    (hprog : task.prog = .call op f)
    (hjob : task.job = .request (.stopWait ev)) (hclient : task.client = true)
    (hstarted : task.started = true) (hawait : op.awaits = false) :
    w.midStep k = true := by
  obtain ⟨job, started, client, prog⟩ := task
  subst hprog hjob hclient hstarted
  simp [World.midStep, ht, hawait]

/-- An await finds the world as it is, and is left by the branch the
tick names. -/
private theorem exec_await {k : Nat} {sleepSecs : Option Nat} {tick : Tick}
    {d d' : Daemon} {branch : Branch}
    (hex : exec k (.select sleepSecs) tick d = some (d', branch)) :
    d' = d ∧ branch = tick.branch := by
  simp only [exec] at hex
  split at hex
  next hb =>
    split at hex <;> simp only [Option.some.injEq, Prod.mk.injEq, reduceCtorEq]
      at hex
    exact ⟨hex.1.symm, hex.2.symm.trans hb.symm⟩
  next hb =>
    split at hex <;> simp only [Option.some.injEq, Prod.mk.injEq, reduceCtorEq]
      at hex
    exact ⟨hex.1.symm, hex.2.symm.trans hb.symm⟩
  next hb =>
    simp only [Option.some.injEq, Prod.mk.injEq] at hex
    exact ⟨hex.1.symm, hex.2.symm.trans hb.symm⟩

-- ----------------------------------------------- what a poll may rest on

/-- A registered poll that was not cancelled has seen no genuine prompt
since. -/
private theorem Vigil.undisturbed (h : Vigil w) {k : Nat} {a : String}
    {xs l : List Obs} (hlog : w.daemon.log = xs ++ l)
    (hothers : ∀ p, w.Owes p a → False)
    (hregistered : .registered k a ∈ l)
    (hsignal : w.daemon.signalled k = false) : ∀ o ∈ xs, ¬Genuine a o := by
  have hnone : ∀ o ∈ xs, ¬Cancels a o := by
    intro o ho hc
    have := h.heeded k a (hlog ▸ follows_of_mem ho hc hregistered rfl)
    rw [hsignal] at this
    cases this
  intro o ho hgenuine
  obtain ⟨ys, zs, rfl⟩ := List.append_of_mem ho
  have hsince : Since (Genuine a) (Cancels a) w.daemon.log := by
    refine since_iff.2 ⟨ys, o, zs ++ l, ?_, hgenuine, fun y hy => ?_⟩
    · rw [hlog, List.append_assoc, List.cons_append]
    · exact hnone y (List.mem_append_left _ hy)
  obtain ⟨p, hp⟩ := h.heard a hsince
  exact hothers p hp

/-- What a poll knows that goes on inside a step is so by now. -/
private theorem clear_inside {k : Nat} {task : Task} {op : Op}
    {f : op.Res → Handler ResponseBody} (ht : w.tasks k = some task)
    (hprog : task.prog = .call op f) {ev : Event} {m : Sight} {l : List Obs}
    (hjob : task.job = .request (.stopWait ev)) (hclient : task.client = true)
    (hmid : w.midStep k = true → l = w.daemon.log)
    (hfresh : task.started = false → m = {})
    (hclear : Clear k ev.sessionId m l) (hawait : op.awaits = false) :
    Clear k ev.sessionId m w.daemon.log := by
  cases hs : task.started with
  | false =>
      rw [hfresh hs]
      exact Clear.start ..
  | true => exact hmid (midStep_poll ht hprog hjob hclient hs hawait) ▸ hclear

/-- A poll that is past an await knows what it knew before, its baseline
only if the timer let it pass. -/
private theorem Vigil.clear_await (h : Vigil w) {k : Nat} {tick : Tick}
    (hstep : w.stepwise (.move k tick) = true)
    (hheed : w.heeding (.move k tick) = true) {task : Task}
    {sleepSecs : Option Nat} {f : Branch → Handler ResponseBody}
    (ht : w.tasks k = some task)
    (hprog : task.prog = .call (.select sleepSecs) f) {ev : Event}
    {m : Sight} {l : List Obs} (hjob : task.job = .request (.stopWait ev))
    (hpast : l <:+ w.daemon.log) (hclear : Clear k ev.sessionId m l)
    (hregistered : m.registered = true) :
    Clear k ev.sessionId ((watching ev.sessionId).next m
      (.select sleepSecs) tick.branch) w.daemon.log := by
  have hab := World.about_of_prog ht hprog
  have hothers : ∀ p, w.Owes p ev.sessionId → False := by
    intro p hp
    by_cases hpk : p = k
    · obtain ⟨ev', started, client, f', ht', -⟩ := hp
      rw [hpk, ht] at ht'
      rw [Option.some.inj ht'] at hjob
      cases hjob
    · have := others_of_stepwise h.numbered hstep p hpk
      rw [hp.midStep] at this
      cases this
  refine ⟨fun b hb => ?_, fun hr => hpast.subset (hclear.registered hr),
    fun cfg hc => hpast.subset (hclear.cfg cfg hc), List.nil_prefix⟩
  have hb : (if tick.branch = .timer then m.base else none) = some b := hb
  split at hb
  next htimer =>
    have hsignal : w.daemon.signalled k = false := by
      simpa [World.heeding, hab, htimer] using hheed
    obtain ⟨xs, hlog⟩ := hpast
    rw [← hlog]
    exact since_grow (h.undisturbed hlog.symm hothers
      (hclear.registered hregistered) hsignal) (hclear.base b hb)
  next => cases hb

/-- What a poll knows once it has moved. -/
private theorem Vigil.clear (h : Vigil w) {k : Nat} {tick : Tick}
    (hC : w.punctual (.move k tick) = true) {task : Task} {op : Op}
    {f : op.Res → Handler ResponseBody} (ht : w.tasks k = some task)
    (hprog : task.prog = .call op f) {ev : Event} {m : Sight} {l : List Obs}
    (hjob : task.job = .request (.stopWait ev)) (hclient : task.client = true)
    (hpast : l <:+ w.daemon.log)
    (hmid : w.midStep k = true → l = w.daemon.log)
    (hfresh : task.started = false → m = {})
    (hclear : Clear k ev.sessionId m l)
    (hok : (watching ev.sessionId).ok m op) {d : Daemon} {r : op.Res}
    (hex : exec k op tick w.daemon = some (d, r)) :
    Clear k ev.sessionId ((watching ev.sessionId).next m op r) d.log := by
  simp only [World.punctual, Bool.and_eq_true] at hC
  obtain ⟨⟨hstep, hheed⟩, -⟩ := hC
  by_cases hawait : op.awaits = true
  · cases op with
    | select sleepSecs =>
        obtain ⟨rfl, rfl⟩ := exec_await hex
        exact h.clear_await hstep hheed ht hprog hjob hpast hclear hok.1
    | _ => cases hawait
  · rw [Bool.not_eq_true] at hawait
    exact clear_exec (clear_inside ht hprog hjob hclient hmid hfresh hclear
      hawait) hok hawait h.pauses hex

-- ------------------------------------------------------------ one step

/-- A Stop is recorded at a time its poll has read. -/
private theorem brief_step (h : Vigil w) {k : Nat} {a : String} {t : Int}
    (hmem : .stopped k a t ∈ (w.step act).daemon.log) : Brief t := by
  rcases w.step_cases act with
    ⟨j, task, op, f, tick, d, r, -, ht, hprog, -, hex, heq⟩
    | ⟨j, tick, task, body, -, -, -, heq⟩ | ⟨disk, graceTimers, heq, -⟩
  · rw [heq] at hmem
    rcases (exec_deed hex).2 _ hmem with hmem | hdeed | haside
    · exact h.brief k a t hmem
    · -- only a poll records a Stop, at a time it has read
      have hop : ∃ ev, op = .write (.stop ev t) := by
        cases op with
        | write x =>
            cases x <;> cases hdeed
            exact ⟨_, rfl⟩
        | snapshot s => cases r <;> cases hdeed
        | _ => cases hdeed
      obtain ⟨ev, rfl⟩ := hop
      cases h.abides j task ht with
      | poll ev' m l job client past now fresh clear typed =>
          rw [hprog] at typed
          exact typed.1.2
      | event ev' m job typed =>
          rw [hprog] at typed
          exact absurd typed.1 id
      | shuts shuts =>
          rw [hprog] at shuts
          cases shuts.1
    · exact absurd haside id
  · rw [heq] at hmem
    dsimp only at hmem
    split at hmem
    · exact h.brief k a t (by simpa using hmem)
    · exact h.brief k a t hmem
  · rw [heq] at hmem
    exact h.brief k a t hmem

/-- Where a cancellation is logged, whoever is registered is sent it. -/
private theorem heeded_step (h : Vigil w) {k : Nat} {a : String}
    (hfollows : Follows (· = .registered k a) (Cancels a)
      (w.step act).daemon.log) :
    (w.step act).daemon.signalled k = true := by
  rcases w.step_cases act with
    ⟨j, task, op, f, tick, d, r, -, ht, hprog, -, hex, heq⟩
    | ⟨j, tick, task, body, -, -, -, heq⟩ | ⟨disk, graceTimers, heq, -⟩
  · have hold : Follows (· = .registered k a) (Cancels a) w.daemon.log →
        (w.step act).daemon.signalled k = true :=
      fun hold => signalled_step act (h.heeded k a hold)
    have hlog : (w.step act).daemon.log = d.log := by rw [heq]; rfl
    rw [hlog] at hfollows
    rcases exec_entries hex with ⟨o, hdeed, hd⟩ | ⟨-, obs, hd, hobs⟩
    · rw [hd] at hfollows
      rcases hfollows with ⟨hcancels, y, hy, rfl⟩ | hfollows
      · cases o with
        | cancelled p s =>
            obtain ⟨rfl, rfl⟩ := Op.deed_cancelled hdeed
            obtain rfl : s = a := hcancels
            simp only [exec, Option.some.injEq, Prod.mk.injEq] at hex
            rw [heq]
            show d.signalled k = true
            rw [← hex.1]
            rcases h.channels k s hy with hsig | hwaits
            · exact signalled_signal.2 (.inl hsig)
            · exact signalled_signal.2 (.inr hwaits)
        | _ => cases hcancels
      · exact hold hfollows
    · rw [hd, follows_append] at hfollows
      · exact hold hfollows
      · intro o ho hc
        have := hobs o ho
        cases o <;> first | exact this | exact hc
  · rw [heq] at hfollows ⊢
    dsimp only at hfollows ⊢
    split at hfollows
    · rcases hfollows with ⟨hc, -⟩ | hfollows
      · exact absurd hc id
      · exact h.heeded k a hfollows
    · exact h.heeded k a hfollows
  · rw [heq] at hfollows ⊢
    exact h.heeded k a hfollows

/-- A prompt that owes a cancellation stays so until it moves. -/
private theorem owes_of_tasks {w' : World} {p : Nat} {a : String}
    (h : w.Owes p a) (hsame : w'.tasks p = w.tasks p) : w'.Owes p a := by
  obtain ⟨ev, started, client, f, ht, hev⟩ := h
  exact ⟨ev, started, client, f, hsame.trans ht, hev⟩

/-- What is owed is all a program may go on with. -/
private theorem owing_rest {prompts : Prop} {a : String}
    {p : Handler ResponseBody}
    (h : p.Typed (telling prompts) (fun m _ => m = none) (some a)) :
    ∃ f, p = .call (.cancelWait a) f := by
  cases p with
  | ret body => cases h
  | call op f =>
      have hok := h.1
      cases op with
      | cancelWait sessionId =>
          obtain rfl : sessionId = a := hok a rfl
          exact ⟨f, rfl⟩
      | write x => cases x <;> first | exact absurd hok.1 (by simp) | cases hok
      | _ => cases hok

/-- A genuine prompt goes on to cancel, with nothing in between. -/
private theorem heard_step (h : Vigil w) (hC : w.punctual act = true)
    {a : String}
    (hsince : Since (Genuine a) (Cancels a) (w.step act).daemon.log) :
    ∃ p, (w.step act).Owes p a := by
  simp only [World.punctual, Bool.and_eq_true] at hC
  obtain ⟨⟨hstep, -⟩, -⟩ := hC
  rcases w.step_cases act with
    ⟨k, task, op, f, tick, d, r, rfl, ht, hprog, hab, hex, heq⟩
    | ⟨k, tick, task, body, rfl, ht, hprog, heq⟩
    | ⟨disk, graceTimers, heq, hmove⟩
  · have hlog : (w.step (.move k tick)).daemon.log = d.log := by rw [heq]; rfl
    rw [hlog] at hsince
    have hold : Since (Genuine a) (Cancels a) w.daemon.log →
        op.deed k r ≠ some (.cancelled k a) →
        ∃ p, (w.step (.move k tick)).Owes p a := by
      intro hold hdeed
      obtain ⟨p, hp⟩ := h.heard a hold
      by_cases hpk : p = k
      · obtain ⟨ev, started, client, f', ht', -⟩ := hp
        rw [hpk, ht] at ht'
        rw [Option.some.inj ht'] at hprog
        obtain ⟨rfl, -⟩ := Prog.call.inj hprog
        exact absurd rfl hdeed
      · have := others_of_stepwise h.numbered hstep p hpk
        rw [hp.midStep] at this
        cases this
    rcases exec_entries hex with ⟨o, hdeed, hd⟩ | ⟨hdeed, obs, hd, hobs⟩
    · rw [hd] at hsince
      rcases hsince with hgenuine | ⟨hc, hsince⟩
      · -- who has just recorded a genuine prompt cancels next
        have hop : ∃ ev t, op = .write (.prompt ev true t)
            ∧ ev.sessionId = a := by
          cases op with
          | write x =>
              cases x <;> cases hdeed <;> first | cases hgenuine | skip
              next ev waking t =>
                cases waking with
                | true => exact ⟨ev, t, rfl, hgenuine⟩
                | false => cases hgenuine
          | snapshot s => cases r <;> cases hdeed; cases hgenuine
          | _ => cases hdeed <;> cases hgenuine
        obtain ⟨ev, t, rfl, rfl⟩ := hop
        cases h.abides k task ht with
        | poll ev' m l job client past now fresh clear typed =>
            rw [hprog] at typed
            exact absurd typed.1 id
        | shuts shuts =>
            rw [hprog] at shuts
            cases shuts.1
        | event ev' m job typed =>
            rw [hprog] at typed
            obtain ⟨⟨-, hprompt⟩, hnext⟩ := typed
            obtain ⟨g, hg⟩ := owing_rest (hnext r trivial)
            refine ⟨k, ev', true, task.client, g, ?_, hprompt⟩
            rw [heq, ← hg, ← job]
            exact upd_same ..
      · refine hold hsince fun hdeed' => hc ?_
        rw [hdeed] at hdeed'
        rw [Option.some.inj hdeed']
        rfl
    · rw [hd, since_append] at hsince
      · exact hold hsince.1 fun hdeed' => by rw [hdeed] at hdeed'; cases hdeed'
      · intro o ho hg
        have := hobs o ho
        cases o <;> first | exact this | exact hg
  · have hsince : Since (Genuine a) (Cancels a) w.daemon.log := by
      rw [heq] at hsince
      dsimp only at hsince
      split at hsince
      · rcases hsince with hg | ⟨-, hsince⟩
        · exact absurd hg id
        · exact hsince
      · exact hsince
    obtain ⟨p, hp⟩ := h.heard a hsince
    refine ⟨p, owes_of_tasks hp ?_⟩
    rw [heq]
    refine upd_other _ _ fun hpk => ?_
    obtain ⟨ev, started, client, f, ht', -⟩ := hp
    rw [hpk, ht] at ht'
    rw [Option.some.inj ht'] at hprog
    cases hprog
  · rw [heq] at hsince
    obtain ⟨p, hp⟩ := h.heard a hsince
    refine ⟨p, ?_⟩
    obtain ⟨ev, started, client, f, ht, hev⟩ := hp
    rcases w.step_frame act p with hsame | ⟨tick, rfl⟩
      | ⟨-, ev', started', op, f', -, ht'⟩ | ⟨hlen, -⟩
    · exact owes_of_tasks ⟨ev, started, client, f, ht, hev⟩ hsame
    · rw [hmove p tick rfl]
      exact ⟨ev, started, client, f, ht, hev⟩
    · rw [ht] at ht'
      cases ht'
    · exact absurd (h.numbered.lt ht) (by omega)

/-- A handler begins with nothing to rest on. -/
private theorem abides_start {k : Nat} {job : Job} {client : Bool}
    (hclient : ∀ req, job = .request req → client = true) :
    w.Abides k { job, client, prog := job.handler } := by
  cases job with
  | request req =>
      cases req with
      | stopWait ev =>
          exact .poll ev {} w.daemon.log rfl (hclient _ rfl)
            (List.suffix_refl _) (fun _ => rfl) (fun _ => rfl)
            (Clear.start ..) (handleStopWait_watching ev)
      | event ev => exact .event ev none rfl (handleEvent_telling ev)
      | prune => exact .shuts shuts_handlePrune
  | reap => exact .shuts shuts_sessionReaper
  | grace sessionId gen => exact .shuts (shuts_graceClose ..)

/-- A task that stays as it is, outside any step, abides by the longer
log. -/
private theorem abides_same {w' : World} {k : Nat} {task : Task}
    (h : w.Abides k task) (hlog : w.daemon.log <:+ w'.daemon.log)
    (hmid : w'.midStep k = true → w.midStep k = true
      ∧ w'.daemon.log = w.daemon.log) : w'.Abides k task := by
  cases h with
  | poll ev m l job client past now fresh clear typed =>
      refine .poll ev m l job client (past.trans hlog) (fun hm => ?_) fresh
        clear typed
      rw [(hmid hm).2]
      exact now (hmid hm).1
  | event ev m job typed => exact .event ev m job typed
  | shuts shuts => exact .shuts shuts

/-- Every task goes on as it began. -/
private theorem abides_step (h : Vigil w) (hC : w.punctual act = true)
    (hnow : act.brief = true) (hdisk : w.daemon.disk.Brief) {k : Nat}
    {task : Task} (ht : (w.step act).tasks k = some task) :
    (w.step act).Abides k task := by
  have hstep : w.stepwise act = true := by
    simp only [World.punctual, Bool.and_eq_true] at hC
    exact hC.1.1
  rcases w.step_cases act with
    ⟨j, old, op, f, tick, d, r, rfl, hold, hprog, hab, hex, heq⟩
    | ⟨j, tick, old, body, rfl, hold, hprog, heq⟩
    | ⟨disk, graceTimers, heq, hmove⟩
  · by_cases hk : k = j
    · subst hk
      rw [heq] at ht ⊢
      simp only [World.resumed, upd_same, Option.some.injEq] at ht
      subst ht
      cases h.abides k old hold with
      | poll ev m l job client past now fresh clear typed =>
          rw [hprog] at typed
          have hclear := h.clear hC hold hprog job client past now fresh clear
            typed.1 hex
          have hvalid : (watching ev.sessionId).valid m op r :=
            valid_exec (by simpa [Act.brief, Act.reading] using hnow) hdisk
              h.pauses h.brief hex
          exact .poll ev _ d.log job client (List.suffix_refl _) (fun _ => rfl)
            (fun hs => by cases hs) hclear (typed.2 r hvalid)
      | event ev m job typed =>
          rw [hprog] at typed
          exact .event ev _ job (typed.2 r trivial)
      | shuts shuts =>
          rw [hprog] at shuts
          exact .shuts (shuts.2 r)
    · have hsame : (w.step (.move j tick)).tasks k = w.tasks k := by
        rw [heq]
        exact upd_other _ _ hk
      refine abides_same (h.abides k task (hsame ▸ ht)) (w.step_log _)
        fun hm => ?_
      rw [midStep_congr hsame, others_of_stepwise h.numbered hstep k hk] at hm
      cases hm
  · have hk : k ≠ j := by
      rintro rfl
      rw [heq] at ht
      simp at ht
    have hsame : (w.step (.move j tick)).tasks k = w.tasks k := by
      rw [heq]
      exact upd_other _ _ hk
    refine abides_same (h.abides k task (hsame ▸ ht)) (w.step_log _)
      fun hm => ?_
    rw [midStep_congr hsame, others_of_stepwise h.numbered hstep k hk] at hm
    cases hm
  · have hlog : (w.step act).daemon.log = w.daemon.log := by rw [heq]
    rcases World.step_tasks ht with hold | ⟨job, client, -, -, hclient, rfl⟩
      | ⟨old, op, f, tick, d, r, ha, -⟩ | ⟨ev, started, op, f, -, -, -, rfl⟩
    · refine abides_same (h.abides k task hold) (w.step_log _) fun hm => ?_
      rw [midStep_congr (ht.trans hold.symm)] at hm
      exact ⟨hm, hlog⟩
    · exact abides_start hclient
    · have hw := hmove k tick ha
      rw [hw] at ht ⊢
      exact h.abides k task ht
    · exact .shuts (shuts_onPollLost ..)

/-- A stamping is not early. -/
private theorem Vigil.notEarly (h : Vigil w) {k : Nat} {tick : Tick}
    (hC : w.punctual (.move k tick) = true) {task : Task}
    {session : SessionRow} {selected : List SelectedFork} {t : Int}
    {f : Unit → Handler ResponseBody} (ht : w.tasks k = some task)
    (hprog : task.prog = .call (.write (.stamp session selected t)) f) :
    NotEarly (.issued k session selected t) w.daemon.log := by
  simp only [World.punctual, Bool.and_eq_true] at hC
  have hab := World.about_of_prog ht hprog
  cases h.abides k task ht with
  | event ev m job typed =>
      rw [hprog] at typed
      exact absurd typed.1 id
  | shuts shuts =>
      rw [hprog] at shuts
      cases shuts.1
  | poll ev m l job client past now fresh clear typed =>
      have hclear := clear_inside ht hprog job client now fresh clear rfl
      rw [hprog] at typed
      obtain ⟨hid, b, cfg, t₂, t₁, more, hbase, hcfg, hread, helapsed⟩ := typed.1
      have hle : t₁ ≤ t := by
        have honce : (w.daemon.log.take 3).all (Obs.readBy t) = true := by
          simpa [World.atOnce, hab] using hC.2
        obtain ⟨rest, hlog⟩ := hclear.readings
        rw [← hlog, hread] at honce
        simpa [Obs.readBy] using (List.all_eq_true.1 honce) (.clock k t₁) (by simp)
      refine ⟨cfg, hclear.cfg cfg hcfg, fun x hx s hs => ⟨b, ?_, ?_⟩⟩
      · rw [hid]
        exact hclear.base b hbase
      · exact (helapsed x hx s hs).trans hle

/-- What is issued is not early. -/
private theorem punctual_step (h : Vigil w) (hC : w.punctual act = true) :
    Each NotEarly (w.step act).daemon.log := by
  refine World.each_step (fun o l ho => ?_) (fun _ _ _ => trivial) ?_ h.punctual
  · cases o <;> first | exact trivial | exact absurd ho id
  · intro k task op f tick d r o ha ht hprog hex hdeed
    subst ha
    by_cases ho : ∃ j session selected t, o = .issued j session selected t
    · obtain ⟨j, session, selected, t, rfl⟩ := ho
      obtain ⟨rfl, rfl⟩ : j = k ∧ op = .write (.stamp session selected t) := by
        cases op with
        | write x =>
            cases x <;> cases hdeed
            exact ⟨rfl, rfl⟩
        | snapshot s => cases r <;> cases hdeed
        | _ => cases hdeed
      exact h.notEarly hC ht hprog
    · cases o <;> first | exact trivial | exact absurd ⟨_, _, _, _, rfl⟩ ho

private theorem vigil_step (w : World) (act : Act)
    (hC : w.punctual act = true ∧ act.brief = true ∧ w.daemon.disk.Brief)
    (h : Vigil w) : Vigil (w.step act) where
  numbered := World.numbered_step h.numbered act
  pauses := pausesMatch_step w act h.pauses
  channels := channels_step act h.channels
  brief _ _ _ := brief_step h
  heeded _ _ := heeded_step h
  heard _ := heard_step h hC.1
  abides _ _ := abides_step h hC.1 hC.2.1 hC.2.2
  punctual := punctual_step h hC.1

end step

private theorem vigil_init (disk : Disk) : Vigil (World.init disk) where
  numbered := World.numbered_init disk
  pauses := pausesMatch_init disk
  channels k s h := by cases h
  brief k a t h := by cases h
  heeded k a h := by cases h
  heard a h := by cases h
  abides k task h := by cases h
  punctual := trivial

/-- Whatever is issued for an idle trigger was due: in every run in
which arrivals, cancellations and issuances are single steps and all
durations are below 2⁶² seconds, each issuance to a session comes, for
every fork it selects by an idle trigger, at least the effective
deadline after some Stop of the session that no genuine prompt of it has
followed. -/
theorem idle_wake_not_early {disk : Disk} {as : List Act}
    (hC : Along World.step (fun w act => w.punctual act = true)
      (World.init disk) as)
    (hbrief : Along World.step
      (fun w act => act.brief = true ∧ w.daemon.disk.Brief)
      (World.init disk) as) :
    Each NotEarly (World.after disk as).daemon.log :=
  ((hC.and hbrief).invariant (P := Vigil) vigil_step (vigil_init disk)).punctual

-- --------------------------------------------------------- a minute later

/-- A fork due a minute into the pause. -/
private def minute : Disk :=
  .holding [("f", { runOn := [.idle (some 60)] })] { wakeDebounceSecs := 0 }
    (some { newOffset := 1 })

private theorem brief_minute : minute.Brief where
  default root := by
    show 600 < 4611686018427387904
    decide
  forks dir := by
    intro e he n hn
    obtain rfl := List.mem_singleton.1 he
    cases List.mem_singleton.1 hn
    decide

private theorem brief_run {as : List Act}
    (hread : Along World.step (fun _ act => act.brief = true)
      (World.init minute) as)
    (has : ∀ a ∈ as, ∀ disk, a ≠ .edit disk) :
    Along World.step (fun w act => act.brief = true ∧ w.daemon.disk.Brief)
      (World.init minute) as := by
  refine (hread.and (World.along_disk has)).mono fun w act h => ⟨h.1, ?_⟩
  rw [h.2]
  exact brief_minute

/-- Two turns end, at 10 and at 30. The poll of the second replaces that
of the first, and its timer runs down at 70. -/
private def twoTurns : List Act :=
  .stop "s" :: Act.moves 15 0 10 ++ .stop "s" :: Act.moves 15 1 30
    ++ .move 0 { now := 30, branch := .cancelled } :: Act.moves 2 0 30
    ++ Act.moves 17 1 70

private theorem punctual_twoTurns :
    Along World.step (fun w act => w.punctual act = true)
      (World.init minute) twoTurns := by
  decide +kernel

private theorem brief_twoTurns :
    Along World.step (fun w act => act.brief = true ∧ w.daemon.disk.Brief)
      (World.init minute) twoTurns := by
  refine brief_run (by decide +kernel) ?_
  simp [twoTurns, Act.moves, Act.stop]

/-- No prompt came between them, so the poll of the second wakes a
minute after the Stop of the first. -/
theorem idle_wake_not_early_minute :
    (∃ o ∈ (World.after minute twoTurns).daemon.log, o.issuer = some 1)
      ∧ Each NotEarly (World.after minute twoTurns).daemon.log := by
  constructor
  · decide +kernel
  · exact @idle_wake_not_early minute twoTurns punctual_twoTurns
      brief_twoTurns

end Autofork
