/-
What one step can do, and the invariant rules every safety result uses.

`exec_cases` and `step_cases` are the only places that look inside an
operation or an action. From them come two rules. `store_invariant` is
for what can be said of the store and the log alone: its user looks at
the writing sections and at nothing else. `outlined_step` is for what a
handler has done so far: its user walks through the handlers once, as
outlines over the log.
-/
import Autofork.Lib.Log
import Autofork.Proofs.Sections

namespace Autofork

open Lib

-- ======================================================== one operation

/-- Entries that tell of a handler's progress, not of the store. -/
def Obs.passive : Obs → Bool
  | .clock .. | .configured .. | .registered .. | .snapshot .. | .cancelled ..
  | .answered .. => true
  | _ => false

/-- An operation runs one writing section, or leaves the store alone and
logs progress at most. -/
theorem exec_cases {k : Nat} {op : Op} {tick : Tick} {d d' : Daemon}
    {r : op.Res} (h : exec k op tick d = some (d', r)) :
    (∃ x, op = .write x ∧ d' = { d with
        store := (x.run k tick.now d).1
        log := (x.run k tick.now d).2.2 ++ d.log })
      ∨ ((∀ x, op ≠ .write x) ∧ d'.store = d.store ∧ d'.disk = d.disk
        ∧ ∃ obs, d'.log = obs ++ d.log ∧ ∀ o ∈ obs, o.passive = true) := by
  have quiet : ∀ {d' : Daemon}, d'.store = d.store → d'.disk = d.disk →
      d'.log = d.log → d'.store = d.store ∧ d'.disk = d.disk
        ∧ ∃ obs, d'.log = obs ++ d.log ∧ ∀ o ∈ obs, o.passive = true :=
    fun hs hd hl => ⟨hs, hd, [], hl, by simp⟩
  have signal_store : ∀ k, (d.signal k).store = d.store := by
    intro k
    cases k <;> rfl
  have signal_disk : ∀ k, (d.signal k).disk = d.disk := by
    intro k
    cases k <;> rfl
  have signal_log : ∀ k, (d.signal k).log = d.log := by
    intro k
    cases k <;> rfl
  cases op with
  | write x =>
      simp only [exec, Option.some.injEq, Prod.mk.injEq] at h
      exact .inl ⟨x, rfl, h.1.symm⟩
  | now =>
      simp only [exec, Option.some.injEq, Prod.mk.injEq] at h
      rw [← h.1]
      exact .inr ⟨by simp, rfl, rfl, [.clock k _], rfl, by simp [Obs.passive]⟩
  | cfgFor root =>
      simp only [exec, Option.some.injEq, Prod.mk.injEq] at h
      rw [← h.1]
      exact .inr ⟨by simp, rfl, rfl, [.configured k _], rfl, by simp [Obs.passive]⟩
  | snapshot sessionId =>
      simp only [exec] at h
      split at h
      · simp only [Option.some.injEq, Prod.mk.injEq] at h
        rw [← h.1]
        exact .inr ⟨by simp, rfl, rfl, [.snapshot k _], rfl, by simp [Obs.passive]⟩
      · simp only [Option.some.injEq, Prod.mk.injEq] at h
        rw [← h.1]
        exact .inr ⟨by simp, quiet rfl rfl rfl⟩
  | register sessionId =>
      simp only [exec, Option.some.injEq, Prod.mk.injEq] at h
      rw [← h.1]
      exact .inr ⟨by simp, signal_store _, signal_disk _, [.registered k sessionId], rfl,
        by simp [Obs.passive]⟩
  | cancelWait sessionId =>
      simp only [exec, Option.some.injEq, Prod.mk.injEq] at h
      rw [← h.1]
      exact .inr ⟨by simp, signal_store _, signal_disk _, [.cancelled k sessionId], rfl,
        by simp [Obs.passive]⟩
  | takePendingClose sessionId gen =>
      simp only [exec] at h
      split at h <;> simp only [Option.some.injEq, Prod.mk.injEq] at h <;>
        rw [← h.1] <;> exact .inr ⟨by simp, quiet rfl rfl rfl⟩
  | select sleepSecs =>
      simp only [exec] at h
      split at h
      · split at h <;> simp at h
        rw [← h.1]
        exact .inr ⟨by simp, quiet rfl rfl rfl⟩
      · split at h <;> simp at h
        rw [← h.1]
        exact .inr ⟨by simp, quiet rfl rfl rfl⟩
      · simp only [Option.some.injEq, Prod.mk.injEq] at h
        rw [← h.1]
        exact .inr ⟨by simp, quiet rfl rfl rfl⟩
  | _ =>
      simp only [exec, Option.some.injEq, Prod.mk.injEq] at h
      rw [← h.1]
      exact .inr ⟨by simp, quiet rfl rfl rfl⟩

/-- The log only grows. -/
theorem exec_log {k : Nat} {op : Op} {tick : Tick} {d d' : Daemon}
    {r : op.Res} (h : exec k op tick d = some (d', r)) :
    d.log <:+ d'.log := by
  rcases exec_cases h with ⟨x, -, rfl⟩ | ⟨-, -, -, obs, hlog, -⟩
  · exact List.suffix_append _ _
  · exact ⟨obs, hlog.symm⟩

theorem exec_disk {k : Nat} {op : Op} {tick : Tick} {d d' : Daemon}
    {r : op.Res} (h : exec k op tick d = some (d', r)) :
    d'.disk = d.disk := by
  rcases exec_cases h with ⟨x, -, rfl⟩ | ⟨-, -, hdisk, -⟩
  · rfl
  · exact hdisk

/-- An invariant of the store and the log, past one operation. -/
theorem exec_invariant {Q : Store → List Obs → Prop}
    (hpassive : ∀ s l o, o.passive = true → Q s l → Q s (o :: l))
    {k : Nat} {op : Op} {tick : Tick} {d d' : Daemon} {r : op.Res}
    (hexec : exec k op tick d = some (d', r))
    (hwrite : ∀ x, op = .write x →
      Q (x.run k tick.now d).1 ((x.run k tick.now d).2.2 ++ d.log))
    (h : Q d.store d.log) : Q d'.store d'.log := by
  rcases exec_cases hexec with ⟨x, rfl, rfl⟩ | ⟨-, hs, -, obs, hlog, hobs⟩
  · exact hwrite x rfl
  · rw [hs, hlog]
    clear hlog
    induction obs with
    | nil => exact h
    | cons o obs ih =>
        exact hpassive _ _ _ (hobs o (by simp))
          (ih fun o' ho' => hobs o' (by simp [ho']))

-- =============================================================== deeds

/-- What an operation logs of its own handler, given its result. -/
def Op.deed (k : Nat) : (op : Op) → op.Res → Option Obs
  | .write (.stop ev t), _ => some (.stopped k ev.sessionId t)
  | .write (.prompt ev waking t), _ => some (.prompted k ev.sessionId waking t)
  | .write (.stamp session selected t), _ => some (.issued k session selected t)
  | .write (.release session released), _ => some (.released k session released)
  | .now, t => some (.clock k t)
  | .cfgFor _, cfg => some (.configured k cfg)
  | .snapshot _, session => session.map (.snapshot k)
  | .register sessionId, _ => some (.registered k sessionId)
  | .cancelWait sessionId, _ => some (.cancelled k sessionId)
  | _, _ => none

/-- An entry that says what a section did to other sessions' rows, or to
the spawns. -/
def Obs.aside : Obs → Prop
  | .marked .. | .closed .. => True
  | _ => False

/-- A writing section logs its deed, or only what it marks or closes. -/
theorem run_entries (k : Nat) (now : Int) (d : Daemon) (x : Section)
    (r : x.Res) :
    (∃ o, Op.deed k (.write x) r = some o ∧ (x.run k now d).2.2 = [o])
      ∨ (Op.deed k (.write x) r = none ∧ ∀ o ∈ (x.run k now d).2.2, o.aside) := by
  have marked : ∀ {s : Store} {t : Int}, ∀ o ∈ marks d.store s t, o.aside := by
    intro s t o ho
    obtain ⟨s, f, rfl⟩ := mem_marks ho
    trivial
  cases x with
  | stop ev t => exact .inl ⟨_, rfl, rfl⟩
  | prompt ev waking t => exact .inl ⟨_, rfl, rfl⟩
  | stamp session selected t => exact .inl ⟨_, rfl, rfl⟩
  | release session released => exact .inl ⟨_, rfl, rfl⟩
  | start ev t => exact .inr ⟨rfl, by simp [Section.run]⟩
  | queue sessionId entries => exact .inr ⟨rfl, by simp [Section.run]⟩
  | classify ev t => exact .inr ⟨rfl, marked⟩
  | ingest sessionId delta t => exact .inr ⟨rfl, marked⟩
  | close sessionId => exact .inr ⟨rfl, by simp [Section.run, Obs.aside]⟩
  | closeIfOpen sessionId =>
      refine .inr ⟨rfl, ?_⟩
      simp only [Section.run]
      split
      · split <;> simp [Obs.aside]
      · simp
  | prune t =>
      refine .inr ⟨rfl, fun o ho => ?_⟩
      simp only [Section.run, List.mem_reverse, List.mem_map] at ho
      obtain ⟨x, -, rfl⟩ := ho
      trivial

/-- Only a stamping logs an issuance. -/
theorem issued_of_run {k j : Nat} {now : Int} {d : Daemon} {x : Section}
    {session : SessionRow} {selected : List SelectedFork} {t : Int}
    (h : .issued j session selected t ∈ (x.run k now d).2.2) :
    x = .stamp session selected t := by
  rcases run_entries k now d x (x.run k now d).2.1 with
    ⟨o, hdeed, hobs⟩ | ⟨-, hobs⟩
  · rw [hobs, List.mem_singleton] at h
    subst h
    cases x <;> cases hdeed
    rfl
  · exact absurd (hobs _ h) id

/-- Only a release logs one. -/
theorem released_of_run {k j : Nat} {now : Int} {d : Daemon} {x : Section}
    {session : SessionRow} {released : List PendingDep}
    (h : .released j session released ∈ (x.run k now d).2.2) :
    x = .release session released := by
  rcases run_entries k now d x (x.run k now d).2.1 with
    ⟨o, hdeed, hobs⟩ | ⟨-, hobs⟩
  · rw [hobs, List.mem_singleton] at h
    subst h
    cases x <;> cases hdeed
    rfl
  · exact absurd (hobs _ h) id

/-- An operation logs its deed, or only what it marks or closes. -/
theorem exec_entries {k : Nat} {op : Op} {tick : Tick} {d d' : Daemon}
    {r : op.Res} (h : exec k op tick d = some (d', r)) :
    (∃ o, op.deed k r = some o ∧ d'.log = o :: d.log)
      ∨ (op.deed k r = none ∧ ∃ obs, d'.log = obs ++ d.log
        ∧ ∀ o ∈ obs, o.aside) := by
  have quiet : ∀ {d' : Daemon}, op.deed k r = none → d'.log = d.log →
      op.deed k r = none ∧ ∃ obs, d'.log = obs ++ d.log ∧ ∀ o ∈ obs, o.aside :=
    fun hn hl => ⟨hn, [], hl, by simp⟩
  cases op with
  | write x =>
      simp only [exec, Option.some.injEq, Prod.mk.injEq] at h
      rw [← h.1]
      rcases run_entries k tick.now d x r with ⟨o, hdeed, hobs⟩ | ⟨hdeed, hobs⟩
      · exact .inl ⟨o, hdeed, by simp [hobs]⟩
      · exact .inr ⟨hdeed, _, rfl, hobs⟩
  | now =>
      simp only [exec, Option.some.injEq, Prod.mk.injEq] at h
      obtain ⟨rfl, rfl⟩ := h
      exact .inl ⟨_, rfl, rfl⟩
  | cfgFor root =>
      simp only [exec, Option.some.injEq, Prod.mk.injEq] at h
      obtain ⟨rfl, rfl⟩ := h
      exact .inl ⟨_, rfl, rfl⟩
  | snapshot sessionId =>
      simp only [exec] at h
      split at h
      · simp only [Option.some.injEq, Prod.mk.injEq] at h
        obtain ⟨rfl, rfl⟩ := h
        exact .inl ⟨_, rfl, rfl⟩
      · simp only [Option.some.injEq, Prod.mk.injEq] at h
        obtain ⟨rfl, rfl⟩ := h
        exact .inr (quiet rfl rfl)
  | register sessionId =>
      simp only [exec, Option.some.injEq, Prod.mk.injEq] at h
      rw [← h.1]
      exact .inl ⟨_, rfl, rfl⟩
  | cancelWait sessionId =>
      simp only [exec, Option.some.injEq, Prod.mk.injEq] at h
      rw [← h.1]
      exact .inl ⟨_, rfl, rfl⟩
  | takePendingClose sessionId gen =>
      refine .inr (quiet rfl ?_)
      simp only [exec] at h
      split at h <;> simp only [Option.some.injEq, Prod.mk.injEq] at h <;>
        rw [← h.1]
  | select sleepSecs =>
      refine .inr (quiet rfl ?_)
      simp only [exec] at h
      split at h
      · split at h <;> simp at h
        rw [← h.1]
      · split at h <;> simp at h
        rw [← h.1]
      · simp only [Option.some.injEq, Prod.mk.injEq] at h
        rw [← h.1]
  | _ =>
      refine .inr (quiet rfl ?_)
      simp only [exec, Option.some.injEq, Prod.mk.injEq] at h
      rw [← h.1]

/-- An operation's deed is on record, and beside it only what is marked
or closed. -/
theorem exec_deed {k : Nat} {op : Op} {tick : Tick} {d d' : Daemon}
    {r : op.Res} (h : exec k op tick d = some (d', r)) :
    (∀ o, op.deed k r = some o → o ∈ d'.log)
      ∧ ∀ o ∈ d'.log, o ∈ d.log ∨ op.deed k r = some o ∨ o.aside := by
  rcases exec_entries h with ⟨o, hdeed, hlog⟩ | ⟨hdeed, obs, hlog, hobs⟩
  · rw [hdeed, hlog]
    refine ⟨fun o' ho' => by simp [Option.some.inj ho'], fun o' ho' => ?_⟩
    rcases List.mem_cons.1 ho' with rfl | ho'
    · exact .inr (.inl rfl)
    · exact .inl ho'
  · rw [hdeed, hlog]
    refine ⟨by simp, fun o ho => ?_⟩
    rcases List.mem_append.1 ho with ho | ho
    · exact .inr (.inr (hobs o ho))
    · exact .inl ho

/-- Answers are no operation's deed. -/
theorem Op.deed_ne_answered {k j : Nat} {op : Op} {r : op.Res}
    {body : ResponseBody} : op.deed k r ≠ some (.answered j body) := by
  intro h
  cases op with
  | write x => cases x <;> cases h
  | snapshot s => cases r <;> cases h
  | _ => cases h

theorem Op.deed_registered {k j : Nat} {op : Op} {r : op.Res} {s : String}
    (h : op.deed k r = some (.registered j s)) : j = k ∧ op = .register s := by
  cases op with
  | write x => cases x <;> cases h
  | snapshot s => cases r <;> cases h
  | register s => cases h; exact ⟨rfl, rfl⟩
  | _ => cases h

theorem Op.deed_cancelled {k j : Nat} {op : Op} {r : op.Res} {s : String}
    (h : op.deed k r = some (.cancelled j s)) : j = k ∧ op = .cancelWait s := by
  cases op with
  | write x => cases x <;> cases h
  | snapshot s => cases r <;> cases h
  | cancelWait s => cases h; exact ⟨rfl, rfl⟩
  | _ => cases h

/-- The contract that every operation is on record, and asks nothing. -/
def onRecord (k : Nat) : Prog.Contract Op Op.Res Obs where
  pre _ _ := True
  post _ op r l := ∀ o, op.deed k r = some o → o ∈ l

/-- Only registration and cancellation touch the cancellation
channels. -/
theorem exec_waits {k : Nat} {op : Op} {tick : Tick} {d d' : Daemon}
    {r : op.Res} (h : exec k op tick d = some (d', r)) :
    (∃ s, op = .register s ∧ d'.waits = upd d.waits s (some k)
        ∧ d'.signalled = (d.signal (d.waits s)).signalled)
      ∨ (∃ s, op = .cancelWait s ∧ d'.waits = upd d.waits s none
        ∧ d'.signalled = (d.signal (d.waits s)).signalled)
      ∨ ((∀ s, op ≠ .register s) ∧ (∀ s, op ≠ .cancelWait s)
        ∧ d'.waits = d.waits ∧ d'.signalled = d.signalled) := by
  cases op with
  | register s =>
      simp only [exec, Option.some.injEq, Prod.mk.injEq] at h
      exact .inl ⟨s, rfl, by rw [← h.1], by rw [← h.1]⟩
  | cancelWait s =>
      simp only [exec, Option.some.injEq, Prod.mk.injEq] at h
      exact .inr (.inl ⟨s, rfl, by rw [← h.1], by rw [← h.1]⟩)
  | select sleepSecs =>
      simp only [exec] at h
      split at h
      · split at h <;> simp at h
        rw [← h.1]
        simp
      · split at h <;> simp at h
        rw [← h.1]
        simp
      · simp only [Option.some.injEq, Prod.mk.injEq] at h
        rw [← h.1]
        simp
  | snapshot s =>
      simp only [exec] at h
      split at h <;> simp only [Option.some.injEq, Prod.mk.injEq] at h <;>
        rw [← h.1] <;> simp
  | takePendingClose s gen =>
      simp only [exec] at h
      split at h <;> simp only [Option.some.injEq, Prod.mk.injEq] at h <;>
        rw [← h.1] <;> simp
  | _ =>
      simp only [exec, Option.some.injEq, Prod.mk.injEq] at h
      rw [← h.1]
      simp

/-- A poll that has been sent its cancellation stays so. -/
theorem signalled_signal {d : Daemon} {k : Nat} {j : Option Nat} :
    (d.signal j).signalled k = true
      ↔ d.signalled k = true ∨ j = some k := by
  cases j with
  | none => simp [Daemon.signal]
  | some i =>
      by_cases h : k = i
      · simp [Daemon.signal, h]
      · simp [Daemon.signal, upd_other _ _ h, Ne.symm h]

-- =========================================================== one action

namespace World

theorem about_of_prog {w : World} {k : Nat} {task : Task} {op : Op}
    {f : op.Res → Handler ResponseBody} (h : w.tasks k = some task)
    (hprog : task.prog = .call op f) : w.about k = some op := by
  obtain ⟨job, started, client, prog⟩ := task
  subst hprog
  simp [about, h]

theorem yielding_congr {w w' : World} {Y : Op → Bool} {j : Nat}
    (h : w'.tasks j = w.tasks j) : w'.yielding Y j = w.yielding Y j := by
  rw [yielding, h, yielding]

theorem about_eq_some {w : World} {k : Nat} {op : Op}
    (h : w.about k = some op) : ∃ task f, w.tasks k = some task
      ∧ task.prog = .call op f := by
  unfold about at h
  split at h
  next htask =>
    simp only [Option.some.injEq] at h
    subst h
    exact ⟨_, _, htask, rfl⟩
  next => cases h

/-- What an action can do: perform the operation a task is about to,
finish a task that has returned, or change nothing the daemon's own
state and log show. -/
theorem step_cases (w : World) (a : Act) :
    (∃ k task op f tick d r, a = .move k tick ∧ w.tasks k = some task
        ∧ task.prog = .call op f ∧ w.about k = some op
        ∧ exec k op tick w.daemon = some (d, r)
        ∧ w.step a = w.resumed k task d (f r))
      ∨ (∃ k tick task body, a = .move k tick ∧ w.tasks k = some task
        ∧ task.prog = .ret body ∧ w.step a = { w with
          tasks := upd w.tasks k none
          daemon.log := if task.client then .answered k body :: w.daemon.log
            else w.daemon.log })
      ∨ ∃ disk graceTimers,
        (w.step a).daemon = { w.daemon with disk, graceTimers }
          ∧ ∀ k tick, a = .move k tick → w.step a = w := by
  have stay : ∀ w' : World, w'.daemon = w.daemon →
      (∀ k tick, a ≠ .move k tick) → ∃ disk graceTimers,
        w'.daemon = { w.daemon with disk, graceTimers }
          ∧ ∀ k tick, a = .move k tick → w' = w :=
    fun w' h hm => ⟨w.daemon.disk, w.daemon.graceTimers, h,
      fun k tick ha => absurd ha (hm k tick)⟩
  cases a with
  | receive req => exact .inr (.inr (stay _ rfl (by simp)))
  | reap => exact .inr (.inr (stay _ rfl (by simp)))
  | edit disk => exact .inr (.inr ⟨disk, _, rfl, by simp⟩)
  | grace i =>
      refine .inr (.inr ?_)
      simp only [step, startGrace]
      split
      · exact ⟨_, _, rfl, by simp⟩
      · exact stay _ rfl (by simp)
  | lose k =>
      refine .inr (.inr (stay _ ?_ (by simp)))
      simp only [step, losePoll]
      split
      · split <;> rfl
      · rfl
  | move k tick =>
      simp only [step, move]
      have idle : ∃ disk graceTimers,
          w.daemon = { w.daemon with disk, graceTimers }
            ∧ ∀ k' tick', Act.move k tick = .move k' tick' → w = w :=
        ⟨w.daemon.disk, w.daemon.graceTimers, rfl, fun _ _ _ => rfl⟩
      cases htask : w.tasks k with
      | none => exact .inr (.inr idle)
      | some task =>
          cases hprog : task.prog with
          | ret body =>
              refine .inr (.inl ⟨k, tick, task, body, rfl, htask, hprog, ?_⟩)
              obtain ⟨job, started, client, prog⟩ := task
              simp only at hprog
              subst hprog
              simp only [finish, htask]
              cases client <;> rfl
          | call op f =>
              cases hex : exec k op tick w.daemon with
              | none => exact .inr (.inr (by simpa [hprog, hex] using idle))
              | some dr =>
                  obtain ⟨d, r⟩ := dr
                  refine .inl ⟨k, task, op, f, tick, d, r, rfl, htask, hprog,
                    ?_, hex, by simp [hprog, hex]⟩
                  obtain ⟨job, started, client, prog⟩ := task
                  simp only at hprog
                  subst hprog
                  simp [about, htask]

/-- The step of a task that is about to write. -/
theorem step_write {w : World} {k : Nat} {x : Section}
    (h : w.about k = some (.write x)) (tick : Tick) :
    (w.step (.move k tick)).daemon = { w.daemon with
      store := (x.run k tick.now w.daemon).1
      log := (x.run k tick.now w.daemon).2.2 ++ w.daemon.log } := by
  obtain ⟨task, f, htask, hprog⟩ := about_eq_some h
  simp [step, move, htask, hprog, exec, resumed]

/-- The action closes session `a`. -/
def closes (a : String) (w : World) : Act → Bool
  | .move k tick => match w.about k with
      | some (.write x) => decide (.closed a ∈ (x.run k tick.now w.daemon).2.2)
      | _ => false
  | _ => false

theorem logged_stamp {w : World} {k : Nat} {session : SessionRow}
    {selected : List SelectedFork} {t : Int}
    (h : w.about k = some (.write (.stamp session selected t)))
    (tick : Tick) :
    .issued k session selected t ∈ (w.step (.move k tick)).daemon.log := by
  rw [step_write h tick]
  exact List.mem_cons_self

theorem logged_release {w : World} {k : Nat} {session : SessionRow}
    {released : List PendingDep}
    (h : w.about k = some (.write (.release session released)))
    (tick : Tick) :
    .released k session released ∈ (w.step (.move k tick)).daemon.log := by
  rw [step_write h tick]
  exact List.mem_cons_self

/-- The log only grows. -/
theorem step_log (w : World) (a : Act) :
    w.daemon.log <:+ (w.step a).daemon.log := by
  rcases w.step_cases a with ⟨k, task, op, f, tick, d, r, -, -, -, -, hex, h⟩
    | ⟨k, tick, task, body, -, -, -, h⟩ | ⟨disk, graceTimers, h, -⟩
  · rw [h]
    exact exec_log hex
  · rw [h]
    simp only
    split
    · exact List.suffix_cons _ _
    · exact List.suffix_refl _
  · rw [h]

theorem run_log (w : World) (as : List Act) :
    w.daemon.log <:+ (run step w as).daemon.log :=
  run_invariant (P := fun w' : World => w.daemon.log <:+ w'.daemon.log)
    (fun w' a h => h.trans (w'.step_log a)) (List.suffix_refl _) as

theorem after_log (disk : Disk) (as bs : List Act) :
    (after disk as).daemon.log <:+ (after disk (as ++ bs)).daemon.log := by
  rw [after, after, run_append]
  exact run_log _ _

/-- Only an edit changes the files. -/
theorem step_disk (w : World) {a : Act} (ha : ∀ disk, a ≠ .edit disk) :
    (w.step a).daemon.disk = w.daemon.disk := by
  cases a with
  | edit disk => exact absurd rfl (ha disk)
  | receive req => rfl
  | reap => rfl
  | grace i =>
      simp only [step, startGrace]
      split <;> rfl
  | lose k =>
      simp only [step, losePoll]
      split
      · split <;> rfl
      · rfl
  | move k tick =>
      rcases w.step_cases (.move k tick) with
        ⟨_, _, _, _, _, _, _, -, -, -, -, hex, heq⟩
        | ⟨_, _, _, _, -, -, -, heq⟩ | ⟨_, _, -, hsame⟩
      · rw [heq]
        exact exec_disk hex
      · rw [heq]
      · rw [hsame k tick rfl]

/-- Without an edit the files stay as they are. -/
theorem along_disk {w : World} {as : List Act}
    (has : ∀ a ∈ as, ∀ disk, a ≠ .edit disk) :
    Along step (fun w' _ => w'.daemon.disk = w.daemon.disk) w as := by
  have hall : ∀ (as : List Act) (w' : World),
      w'.daemon.disk = w.daemon.disk → (∀ a ∈ as, ∀ disk, a ≠ .edit disk) →
      Along step (fun w' _ => w'.daemon.disk = w.daemon.disk) w' as := by
    intro as
    induction as with
    | nil => exact fun _ _ _ => trivial
    | cons a as ih =>
        intro w' hw has
        rw [List.forall_mem_cons] at has
        exact ⟨hw, ih _ ((w'.step_disk has.1).trans hw) has.2⟩
  exact hall as w rfl has

/-- The rule for invariants of the store and the log: only the writing
sections matter. -/
theorem store_invariant {Q : Store → List Obs → Prop}
    {C : World → Act → Prop}
    (hpassive : ∀ s l o, o.passive = true → Q s l → Q s (o :: l))
    (hwrite : ∀ w k tick x, C w (.move k tick) →
      w.about k = some (.write x) → Q w.daemon.store w.daemon.log →
      Q (x.run k tick.now w.daemon).1
        ((x.run k tick.now w.daemon).2.2 ++ w.daemon.log))
    (w : World) (a : Act) (hC : C w a)
    (h : Q w.daemon.store w.daemon.log) :
    Q (w.step a).daemon.store (w.step a).daemon.log := by
  rcases w.step_cases a with
    ⟨k, task, op, f, tick, d, r, rfl, -, -, hab, hex, heq⟩
    | ⟨k, tick, task, body, rfl, -, -, heq⟩ | ⟨disk, graceTimers, heq, -⟩
  · rw [heq]
    exact exec_invariant hpassive hex
      (fun x hx => hwrite w k tick x hC (hx ▸ hab) h) h
  · rw [heq]
    simp only
    split
    · exact hpassive _ _ _ rfl h
    · exact h
  · rw [heq]
    exact h

/-- The rule for what justifies each entry of the log: only the deeds of
operations need it. -/
theorem each_step {J : Obs → List Obs → Prop} {w : World} {a : Act}
    (haside : ∀ o l, o.aside → J o l)
    (hanswered : ∀ k body l, J (.answered k body) l)
    (hdeed : ∀ k task op f tick d r o, a = .move k tick →
      w.tasks k = some task → task.prog = .call op f →
      exec k op tick w.daemon = some (d, r) → op.deed k r = some o →
      J o w.daemon.log)
    (h : Each J w.daemon.log) : Each J (w.step a).daemon.log := by
  rcases w.step_cases a with
    ⟨k, task, op, f, tick, d, r, ha, ht, hprog, -, hex, heq⟩
    | ⟨k, tick, task, body, -, -, -, heq⟩ | ⟨disk, graceTimers, heq, -⟩
  · rw [heq]
    show Each J d.log
    rcases exec_entries hex with ⟨o, ho, hlog⟩ | ⟨-, obs, hlog, hobs⟩
    · rw [hlog]
      exact ⟨hdeed k task op f tick d r o ha ht hprog hex ho, h⟩
    · rw [hlog]
      exact h.append fun o ho l => haside o l (hobs o ho)
  · rw [heq]
    dsimp only
    split
    · exact ⟨hanswered _ _ _, h⟩
    · exact h
  · rw [heq]
    exact h

-- ========================================================= the task table

/-- Every task is filed under the number of its job. -/
def Numbered (w : World) : Prop :=
  ∀ k task, w.tasks k = some task → w.jobs[k]? = some task.job

theorem numbered_init (disk : Disk) : (init disk).Numbered := by
  intro k task h
  cases h

theorem Numbered.lt {w : World} (hn : w.Numbered) {k : Nat} {task : Task}
    (h : w.tasks k = some task) : k < w.jobs.length :=
  (List.getElem?_eq_some_iff.1 (hn k task h)).1

/-- Jobs keep their numbers. -/
theorem step_jobs (w : World) (a : Act) : w.jobs <+: (w.step a).jobs := by
  cases a with
  | receive req => exact List.prefix_append _ _
  | reap => exact List.prefix_append _ _
  | edit disk => exact List.prefix_refl _
  | grace i =>
      simp only [step, startGrace]
      split
      · exact List.prefix_append _ _
      · exact List.prefix_refl _
  | lose k =>
      simp only [step, losePoll]
      split
      · split <;> exact List.prefix_refl _
      · exact List.prefix_refl _
  | move k tick =>
      simp only [step, move]
      split
      · exact List.prefix_refl _
      · split
        · simp only [finish]
          split
          · split <;> exact List.prefix_refl _
          · exact List.prefix_refl _
        · split <;> exact List.prefix_refl _

theorem run_jobs (w : World) (as : List Act) :
    w.jobs <+: (run step w as).jobs :=
  run_invariant (P := fun w' : World => w.jobs <+: w'.jobs)
    (fun w' a h => h.trans (w'.step_jobs a)) (List.prefix_refl _) as

/-- Only receiving a request starts its task. -/
theorem receive_of_jobs {w : World} {act : Act} {req : Request}
    (h : (w.step act).jobs = w.jobs ++ [.request req]) : act = .receive req := by
  have hsame : ¬w.jobs = w.jobs ++ [Job.request req] := by simp
  cases act with
  | receive req' =>
      have hjob := List.append_cancel_left (show w.jobs ++ _ = w.jobs ++ _ from h)
      simp only [List.cons.injEq, Job.request.injEq, and_true] at hjob
      rw [hjob]
  | reap =>
      have hjob := List.append_cancel_left (show w.jobs ++ _ = w.jobs ++ _ from h)
      simp at hjob
  | edit disk => exact absurd h hsame
  | grace i =>
      simp only [step, startGrace] at h
      split at h
      · have hjob := List.append_cancel_left (show w.jobs ++ _ = w.jobs ++ _ from h)
        simp at hjob
      · exact absurd h hsame
  | lose k =>
      simp only [step, losePoll] at h
      split at h
      · split at h <;> exact absurd h hsame
      · exact absurd h hsame
  | move k tick =>
      rcases w.step_cases (.move k tick) with
        ⟨k', task, op, f, tick', d, r, -, -, -, -, -, heq⟩
        | ⟨k', tick', task, body, -, -, -, heq⟩ | ⟨disk, graceTimers, -, hstay⟩
      · rw [heq] at h
        exact absurd h hsame
      · rw [heq] at h
        exact absurd h hsame
      · rw [hstay k tick rfl] at h
        exact absurd h hsame

/-- A task that runs keeps its job; a new one has the next number. -/
theorem step_tasks {w : World} {a : Act} {k : Nat} {task : Task}
    (h : (w.step a).tasks k = some task) :
    w.tasks k = some task
      ∨ (∃ job client, k = w.jobs.length ∧ (w.step a).jobs = w.jobs ++ [job]
        ∧ (∀ req, job = .request req → client = true)
        ∧ task = { job, client, prog := job.handler })
      ∨ (∃ old op f tick d r, a = .move k tick ∧ w.tasks k = some old
        ∧ old.prog = .call op f ∧ exec k op tick w.daemon = some (d, r)
        ∧ (w.step a).daemon = d
        ∧ task = { old with started := true, prog := f r })
      ∨ ∃ ev started op f, a = .lose k ∧ (!started || op.awaits) = true
        ∧ w.tasks k = some ⟨.request (.stopWait ev), started, true, .call op f⟩
        ∧ task = ⟨.request (.stopWait ev), true, false,
          onPollLost ev.sessionId started⟩ := by
  have hspawn : ∀ {w' : World} {job : Job} {client : Bool},
      w'.tasks = w.tasks → w'.jobs = w.jobs →
      (∀ req, job = .request req → client = true) →
      (w'.spawn job client).tasks k = some task →
      w.tasks k = some task ∨ ∃ job' client', k = w.jobs.length
        ∧ (w'.spawn job client).jobs = w.jobs ++ [job']
        ∧ (∀ req, job' = .request req → client' = true)
        ∧ task = { job := job', client := client', prog := job'.handler } := by
    intro w' job client ht hj hc h
    simp only [spawn, ht, hj] at h ⊢
    by_cases hk : k = w.jobs.length
    · subst hk
      rw [upd_same] at h
      exact .inr ⟨job, client, rfl, rfl, hc, (Option.some.inj h).symm⟩
    · rw [upd_other _ _ hk] at h
      exact .inl h
  cases a with
  | receive req => exact (hspawn rfl rfl (fun _ _ => rfl) h).imp_right .inl
  | reap => exact (hspawn rfl rfl (by simp) h).imp_right .inl
  | edit disk => exact .inl h
  | grace i =>
      cases ht : w.daemon.graceTimers[i]? with
      | none =>
          simp only [step, startGrace, ht] at h
          exact .inl h
      | some sg =>
          simp only [step, startGrace, ht] at h ⊢
          exact (hspawn rfl rfl (by simp) h).imp_right .inl
  | lose j =>
      simp only [step, losePoll] at h
      split at h
      next ev started op f htask =>
        split at h
        next hlose =>
          by_cases hk : k = j
          · subst hk
            simp only [upd_same, Option.some.injEq] at h
            exact .inr (.inr (.inr ⟨ev, started, op, f, rfl, hlose, htask,
              h.symm⟩))
          · simp only [upd_other _ _ hk] at h
            exact .inl h
        next => exact .inl h
      next => exact .inl h
  | move j tick =>
      simp only [step, move] at h
      split at h
      next => exact .inl h
      next old hold =>
        split at h
        next body hbody =>
          simp only [finish, hold] at h
          split at h
          next =>
            split at h <;>
            · by_cases hk : k = j
              · subst hk
                simp at h
              · simp only [upd_other _ _ hk] at h
                exact .inl h
          next => exact .inl h
        next op f hprog =>
          split at h
          next => exact .inl h
          next d r hex =>
            by_cases hk : k = j
            · subst hk
              simp only [resumed, upd_same, Option.some.injEq] at h
              refine .inr (.inr (.inl ⟨old, op, f, tick, d, r, rfl, hold,
                hprog, hex, ?_, h.symm⟩))
              simp [step, move, hold, hprog, hex, resumed]
            · simp only [resumed, upd_other _ _ hk] at h
              exact .inl h

/-- A task that has not started has its handler ahead of it. -/
def Unstarted (w : World) : Prop :=
  ∀ k task, w.tasks k = some task → task.started = false →
    task.prog = task.job.handler

theorem unstarted_init (disk : Disk) : (init disk).Unstarted := by
  intro k task h
  cases h

theorem unstarted_step {w : World} (a : Act) (h : w.Unstarted) :
    (w.step a).Unstarted := by
  intro k task ht hs
  rcases step_tasks ht with hold | ⟨job, client, -, -, -, rfl⟩
    | ⟨old, op, f, tick, d, r, -, -, -, -, -, rfl⟩
    | ⟨ev, started, op, f, -, -, -, rfl⟩
  · exact h k task hold hs
  · rfl
  · cases hs
  · cases hs

/-- A task that neither moves nor is lost stays as it is; only the next
number is new. -/
theorem step_frame (w : World) (a : Act) (j : Nat) :
    (w.step a).tasks j = w.tasks j ∨ (∃ tick, a = .move j tick)
      ∨ (a = .lose j ∧ ∃ ev started op f, (!started || op.awaits) = true
        ∧ w.tasks j = some ⟨.request (.stopWait ev), started, true, .call op f⟩)
      ∨ (j = w.jobs.length
        ∧ ∃ task, (w.step a).tasks j = some task ∧ task.started = false) := by
  have hspawn : ∀ (w' : World) (job : Job) (client : Bool),
      w'.tasks = w.tasks → w'.jobs = w.jobs →
      (w'.spawn job client).tasks j = w.tasks j
        ∨ (j = w.jobs.length ∧ ∃ task,
          (w'.spawn job client).tasks j = some task ∧ task.started = false) := by
    intro w' job client ht hj
    simp only [spawn, ht, hj]
    by_cases hk : j = w.jobs.length
    · subst hk
      exact .inr ⟨rfl, _, upd_same .., rfl⟩
    · exact .inl (upd_other _ _ hk)
  cases a with
  | receive req => exact (hspawn w _ _ rfl rfl).imp_right (.inr ∘ .inr)
  | reap => exact (hspawn w _ _ rfl rfl).imp_right (.inr ∘ .inr)
  | edit disk => exact .inl rfl
  | grace i =>
      simp only [step, startGrace]
      split
      · exact (hspawn _ _ _ rfl rfl).imp_right (.inr ∘ .inr)
      · exact .inl rfl
  | lose k =>
      simp only [step, losePoll]
      split
      next ev started op f hold =>
        split
        next hlose =>
          by_cases hk : j = k
          · subst hk
            exact .inr (.inr (.inl ⟨rfl, ev, started, op, f, hlose, hold⟩))
          · exact .inl (upd_other _ _ hk)
        next => exact .inl rfl
      next => exact .inl rfl
  | move k tick =>
      by_cases hk : j = k
      · exact .inr (.inl ⟨tick, by rw [hk]⟩)
      · refine .inl ?_
        simp only [step, move]
        split
        · rfl
        · split
          · simp only [finish]
            split
            · split <;> exact upd_other _ _ hk
            · rfl
          · split
            · rfl
            · exact upd_other _ _ hk

theorem jobs_step (w : World) {k : Nat} {job : Job}
    (h : w.jobs[k]? = some job) (a : Act) :
    (w.step a).jobs[k]? = some job := by
  obtain ⟨js, hjs⟩ := w.step_jobs a
  rw [← hjs, List.getElem?_append_left (List.getElem?_eq_some_iff.1 h).1, h]

theorem numbered_step {w : World} (hn : w.Numbered) (a : Act) :
    (w.step a).Numbered := by
  have hkeep := fun {k : Nat} {job : Job} (h : w.jobs[k]? = some job) =>
    w.jobs_step h a
  intro k task h
  rcases step_tasks h with h | ⟨job, client, rfl, hj, -, rfl⟩
    | ⟨old, op, f, tick, d, r, -, hold, -, -, -, rfl⟩
    | ⟨ev, started, op, f, -, -, hold, rfl⟩
  · exact hkeep (hn k task h)
  · rw [hj]
    simp
  · exact hkeep (hn k old hold)
  · have hjob := hn k _ hold
    exact hkeep hjob

theorem numbered_after (disk : Disk) (as : List Act) :
    (after disk as).Numbered :=
  run_invariant (P := Numbered) (fun _ a h => numbered_step h a)
    (numbered_init disk) as

-- ============================================================= outlines

/-- Every handler has something to do before it returns. -/
theorem handler_ne_ret (job : Job) (body : ResponseBody) :
    job.handler ≠ .ret body := by
  intro h
  cases job with
  | request req => cases req <;> cases h
  | reap => cases h
  | grace sessionId gen => cases h

section outlined

variable {D : Prog.Discipline Op Obs}
  {C : Nat → Prog.Contract Op Op.Res Obs}
  {R : Nat → Job → List Obs → ResponseBody → Prop}

/-- Every task that has started keeps to its contract, and returns to a
waiting client only what its job promises; one that has not has its
handler ahead of it. -/
structure Outlined (D : Prog.Discipline Op Obs)
    (C : Nat → Prog.Contract Op Op.Res Obs)
    (R : Nat → Job → List Obs → ResponseBody → Prop) (w : World) : Prop where
  numbered : w.Numbered
  /-- The outline stands at the log as the task left it: the log as it
  is, unless the task has yielded. -/
  started : ∀ k task, w.tasks k = some task → task.started = true →
    ∃ l, l <:+ w.daemon.log
      ∧ (w.yielding D.yields k = false → l = w.daemon.log)
      ∧ Prog.Outline D (C k) (fun l body => D.inv l
        ∧ (task.client = true → R k task.job l body)) task.prog l
  fresh : ∀ k task, w.tasks k = some task → task.started = false →
    task.prog = task.job.handler
  calm : (∀ j, w.yielding D.yields j = true) → D.inv w.daemon.log

theorem outlined_init (disk : Disk) (hinv : D.inv []) :
    (init disk).Outlined D C R where
  numbered := numbered_init disk
  started k task h := by cases h
  fresh k task h := by cases h
  calm _ := hinv

/-- At a task's next operation: its outline, from the log as it is. -/
theorem Outlined.next {w : World} (h : w.Outlined D C R) {k : Nat}
    {task : Task} {op : Op} {f : op.Res → Handler ResponseBody}
    (ht : w.tasks k = some task) (hprog : task.prog = .call op f)
    (hothers : ∀ j, j ≠ k → w.yielding D.yields j = true)
    (hstart : task.started = false → D.inv w.daemon.log →
      Prog.Outline D (C k) (fun l body => D.inv l ∧ R k task.job l body)
        task.job.handler w.daemon.log) :
    (C k).pre w.daemon.log op ∧ ∀ r l', w.daemon.log <:+ l' →
      (C k).post w.daemon.log op r l' →
      Prog.Outline D (C k) (fun l body => D.inv l
        ∧ (task.client = true → R k task.job l body)) (f r) l' := by
  have hcalm : (task.started = true → D.yields op = true) →
      D.inv w.daemon.log := by
    intro hy
    refine h.calm fun j => ?_
    by_cases hj : j = k
    · subst hj
      obtain ⟨job, started, client, prog⟩ := task
      subst hprog
      cases started with
      | true => simpa [yielding, ht] using hy rfl
      | false => simp [yielding, ht]
    · exact hothers j hj
  obtain ⟨l, hl, hexact, hout⟩ : ∃ l, l <:+ w.daemon.log
      ∧ (D.yields op = false → l = w.daemon.log)
      ∧ Prog.Outline D (C k) (fun l body => D.inv l
        ∧ (task.client = true → R k task.job l body)) (.call op f) l := by
    rw [← hprog]
    cases hs : task.started with
    | true =>
        obtain ⟨l, hl, hexact, hout⟩ := h.started k task ht hs
        refine ⟨l, hl, fun hy => hexact ?_, hout⟩
        obtain ⟨job, started, client, prog⟩ := task
        subst hprog hs
        simpa [yielding, ht] using hy
    | false =>
        refine ⟨_, List.suffix_refl _, fun _ => rfl, ?_⟩
        rw [h.fresh k task ht hs]
        exact (hstart hs (hcalm (by simp [hs]))).mono
          fun _ _ _ hb => ⟨hb.1, fun _ => hb.2⟩
  refine hout.2 w.daemon.log ?_
  unfold Prog.Discipline.Drift
  split
  next hy => exact ⟨hl, hcalm fun _ => hy⟩
  next hy => exact (hexact (by simpa using hy)).symm

/-- The rule for what handlers have done: it is enough to walk through
the handlers, provided each operation delivers what the contract says
of its result. -/
theorem outlined_step {w : World} {a : Act}
    (hothers : ∀ k, (∃ tick, a = .move k tick) ∨ a = .lose k →
      ∀ j, j ≠ k → w.yielding D.yields j = true)
    (hstart : ∀ k task, w.tasks k = some task → task.started = false →
      D.inv w.daemon.log → Prog.Outline D (C k)
        (fun l body => D.inv l ∧ R k task.job l body) task.job.handler
        w.daemon.log)
    (hlost : ∀ k sessionId started l, D.inv l → Prog.Outline D (C k)
      (fun l _ => D.inv l) (onPollLost sessionId started) l)
    (hanswer : ∀ k body l, D.inv l → D.inv (.answered k body :: l))
    (hpost : ∀ k op tick d r, a = .move k tick → w.about k = some op →
      exec k op tick w.daemon = some (d, r) →
      (C k).post w.daemon.log op r d.log)
    (hawaits : ∀ op, op.awaits = true → D.yields op = true)
    (h : w.Outlined D C R) : (w.step a).Outlined D C R := by
  -- what the task that moves does
  have hmoved : ∀ {k : Nat} {task : Task} {op : Op}
      {f : op.Res → Handler ResponseBody} {tick : Tick} {d : Daemon}
      {r : op.Res}, a = .move k tick → w.tasks k = some task →
      task.prog = .call op f → w.about k = some op →
      exec k op tick w.daemon = some (d, r) →
      Prog.Outline D (C k) (fun l body => D.inv l
        ∧ (task.client = true → R k task.job l body)) (f r) d.log :=
    fun ha ht hprog hab hex =>
      (h.next ht hprog (hothers _ (.inl ⟨_, ha⟩)) (hstart _ _ ht)).2 _ _
        (exec_log hex) (hpost _ _ _ _ _ ha hab hex)
  have hkept : ∀ {k : Nat} {task : Task},
      w.daemon.log <:+ (w.step a).daemon.log →
      (w.step a).tasks k = w.tasks k →
      (w.yielding D.yields k = true ∨ (w.step a).daemon.log = w.daemon.log) →
      (w.step a).tasks k = some task → task.started = true →
      ∃ l, l <:+ (w.step a).daemon.log
        ∧ ((w.step a).yielding D.yields k = false →
          l = (w.step a).daemon.log)
        ∧ Prog.Outline D (C k) (fun l body => D.inv l
          ∧ (task.client = true → R k task.job l body)) task.prog l := by
    intro k task hlog hsame hy ht hs
    obtain ⟨l, hl, hexact, hout⟩ := h.started k task (hsame ▸ ht) hs
    refine ⟨l, hl.trans hlog, fun hno => ?_, hout⟩
    rw [yielding_congr hsame] at hno
    rcases hy with hy | hy
    · rw [hy] at hno
      cases hno
    · rw [hexact hno, hy]
  -- a task that is lost had yielded
  have hyield : ∀ {k : Nat} {ev : Event} {started : Bool} {op : Op}
      {f : op.Res → Handler ResponseBody},
      w.tasks k = some ⟨.request (.stopWait ev), started, true, .call op f⟩ →
      (!started || op.awaits) = true → w.yielding D.yields k = true := by
    intro k ev started op f hold hlose
    cases started with
    | false => simp [yielding, hold]
    | true => simpa [yielding, hold] using hawaits op (by simpa using hlose)
  refine ⟨numbered_step h.numbered a, ?_, ?_, ?_⟩
  · intro k task ht hs
    rcases w.step_cases a with
      ⟨k₀, old, op, f, tick, d, r, ha, hold, hprog, hab, hex, heq⟩
      | ⟨k₀, tick, old, body, ha, hold, hprog, heq⟩
      | ⟨disk, graceTimers, heq, hmove⟩
    · by_cases hk : k = k₀
      · subst hk
        rw [heq] at ht
        simp only [resumed, upd_same, Option.some.injEq] at ht
        subst ht
        have hout := hmoved ha hold hprog hab hex
        rw [heq]
        exact ⟨_, List.suffix_refl _, fun _ => rfl, hout⟩
      · have hsame : (w.step a).tasks k = w.tasks k := by
          rw [heq]
          exact upd_other _ _ hk
        exact hkept (w.step_log a) hsame
          (.inl (hothers k₀ (.inl ⟨tick, ha⟩) k hk)) ht hs
    · by_cases hk : k = k₀
      · subst hk
        rw [heq] at ht
        simp at ht
      · have hsame : (w.step a).tasks k = w.tasks k := by
          rw [heq]
          exact upd_other _ _ hk
        exact hkept (w.step_log a) hsame
          (.inl (hothers k₀ (.inl ⟨tick, ha⟩) k hk)) ht hs
    · have hlog : (w.step a).daemon.log = w.daemon.log := by rw [heq]
      rcases step_tasks ht with hold | ⟨job, client, -, -, -, rfl⟩
        | ⟨old, op, f, tick, d, r, ha, hold, hprog, hex, -, rfl⟩
        | ⟨ev, started, op, f, ha, hlose, hold, rfl⟩
      · exact hkept (w.step_log a) (ht.trans hold.symm) (.inr hlog) ht hs
      · cases hs
      · have := hmove k tick ha
        rw [this] at ht ⊢
        exact h.started k _ ht hs
      · refine ⟨_, List.suffix_refl _, fun _ => rfl, ?_⟩
        rw [hlog]
        refine (hlost k ev.sessionId started _ (h.calm fun j => ?_)).mono
          fun _ _ _ hinv => ⟨hinv, fun hc => by cases hc⟩
        by_cases hj : j = k
        · exact hj ▸ hyield hold hlose
        · exact hothers k (.inr ha) j hj
  · exact unstarted_step a h.fresh
  · intro hall
    rcases w.step_cases a with
      ⟨k₀, old, op, f, tick, d, r, ha, hold, hprog, hab, hex, heq⟩
      | ⟨k₀, tick, old, body, ha, hold, hprog, heq⟩
      | ⟨disk, graceTimers, heq, hmove⟩
    · have hout := hmoved ha hold hprog hab hex
      have hk := hall k₀
      rw [heq] at hk ⊢
      show D.inv d.log
      simp only [yielding, resumed, upd_same] at hk
      cases hp : f r with
      | ret body =>
          rw [hp] at hout
          exact hout.1
      | call op' f' =>
          rw [hp] at hout hk
          exact hout.1 hk
    · have hinv : D.inv w.daemon.log := by
        refine h.calm fun j => ?_
        by_cases hj : j = k₀
        · obtain ⟨job, started, client, prog⟩ := old
          subst hprog hj
          cases started <;> simp [yielding, hold]
        · exact hothers k₀ (.inl ⟨tick, ha⟩) j hj
      rw [heq]
      dsimp only
      split
      · exact hanswer _ _ _ hinv
      · exact hinv
    · rw [heq]
      refine h.calm fun j => ?_
      rcases w.step_frame a j with hsame | ⟨tick, ha⟩
        | ⟨-, ev, started, op, f, hlose, hold⟩ | ⟨hj, -⟩
      · exact yielding_congr hsame ▸ hall j
      · exact hmove j tick ha ▸ hall j
      · exact hyield hold hlose
      · cases hold : w.tasks j with
        | none => simp [yielding, hold]
        | some task => exact absurd (h.numbered.lt hold) (by omega)

/-- What an outlined task returns to its client is as promised. -/
theorem Outlined.promise (hR : ∀ k job body, Prog.Stable (R k job · body))
    {w : World} (h : w.Outlined D C R)
    {k : Nat} {task : Task} {body : ResponseBody} (ht : w.tasks k = some task)
    (hprog : task.prog = .ret body) (hc : task.client = true) :
    R k task.job w.daemon.log body := by
  cases hs : task.started with
  | false =>
      rw [h.fresh k task ht hs] at hprog
      exact absurd hprog (handler_ne_ret _ _)
  | true =>
      obtain ⟨l, hl, -, hout⟩ := h.started k task ht hs
      rw [hprog] at hout
      exact hR _ _ _ hl (hout.2 hc)

end outlined

/-- What the log answers to a client, its job promises. -/
def Answered (R : Nat → Job → List Obs → ResponseBody → Prop)
    (w : World) : Prop :=
  ∀ k body, .answered k body ∈ w.daemon.log →
    ∃ job, w.jobs[k]? = some job ∧ R k job w.daemon.log body

theorem answered_init (R : Nat → Job → List Obs → ResponseBody → Prop)
    (disk : Disk) : (init disk).Answered R := by
  intro k body h
  cases h

/-- An answer is new only when its task returns it. -/
theorem answered_new {w : World} {a : Act} {k : Nat} {body : ResponseBody}
    (h : .answered k body ∈ (w.step a).daemon.log)
    (hold : .answered k body ∉ w.daemon.log) :
    ∃ task, w.tasks k = some task ∧ task.prog = .ret body
      ∧ task.client = true := by
  rcases w.step_cases a with
    ⟨j, task, op, f, tick, d, r, -, -, -, -, hex, heq⟩
    | ⟨j, tick, task, body', -, ht, hprog, heq⟩ | ⟨disk, graceTimers, heq, -⟩
  · rw [heq] at h
    rcases (exec_deed hex).2 _ h with h | h | h
    · exact absurd h hold
    · exact absurd h Op.deed_ne_answered
    · cases h
  · rw [heq] at h
    simp only at h
    split at h
    next hc =>
      rcases List.mem_cons.1 h with h | h
      · obtain ⟨rfl, rfl⟩ := Obs.answered.inj h
        exact ⟨task, ht, hprog, hc⟩
      · exact absurd h hold
    next => exact absurd h hold
  · rw [heq] at h
    exact absurd h hold

theorem answered_step {D : Prog.Discipline Op Obs}
    {C : Nat → Prog.Contract Op Op.Res Obs}
    {R : Nat → Job → List Obs → ResponseBody → Prop}
    (hR : ∀ k job body, Prog.Stable (R k job · body)) {w : World} {a : Act}
    (ho : w.Outlined D C R) (h : w.Answered R) :
    (w.step a).Answered R := by
  intro k body hk
  by_cases hold : .answered k body ∈ w.daemon.log
  · obtain ⟨job, hjob, hr⟩ := h k body hold
    exact ⟨job, w.jobs_step hjob a, hR k job body (w.step_log a) hr⟩
  · obtain ⟨task, ht, hprog, hc⟩ := answered_new hk hold
    exact ⟨task.job, w.jobs_step (ho.numbered k task ht) a,
      hR k _ body (w.step_log a) (ho.promise hR ht hprog hc)⟩

end World

/-- What a world is about to stamp. -/
def stampOf (w : World) (k : Nat) :
    Option (SessionRow × List SelectedFork × Int) :=
  match w.about k with
  | some (.write (.stamp session selected t)) => some (session, selected, t)
  | _ => none

theorem about_of_stampOf {w : World} {k : Nat} {session : SessionRow}
    {selected : List SelectedFork} {t : Int}
    (h : stampOf w k = some (session, selected, t)) :
    w.about k = some (.write (.stamp session selected t)) := by
  unfold stampOf at h
  split at h
  next hab =>
    cases h
    exact hab
  next => cases h

end Autofork
