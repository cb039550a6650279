/-
What a session sees of a run.

A step is seen by session `a` when it is its own business or
everybody's: its requests and the prunes, the reaper's passes, the steps
of the tasks these started, its lost polls and its grace timers, each
with what it reads off the clock and the files (`World.view`). A reaper
going through its list is seen where it closes `a`.

Every task keeps to its session or to what is everybody's, and no number
is used before it is given out (`World.Tidy`). So a step that is not
seen changes nothing that concerns `a` (`frame_step`).
-/
import Autofork.Lib.Ranks
import Autofork.Proofs.Alike

namespace Autofork

open Lib

-- ========================================================== what is seen

/-- The session a job is for; none for one that is everybody's. -/
def Job.owner : Job → Option String
  | .request (.event ev) | .request (.stopWait ev) => some ev.sessionId
  | .request .prune | .reap => none
  | .grace sessionId _ => some sessionId

/-- A job of session `a`, or of everybody's. -/
def Job.concerns (a : String) (job : Job) : Bool := job.owner.all (· == a)

deriving instance DecidableEq for Request

/-- A step as session `a` sees it. Tasks go by their number among those
that concern `a`, timers by theirs among its own. -/
inductive Seen
  | receive (req : Request)
  | reap
  | grace (i : Nat)
  | move (i : Nat) (tick : Tick) (reading : Reading)
  | lose (i : Nat)
  deriving DecidableEq

namespace World

/-- What task `k` reads of the files in its next operation. -/
def reading (a : String) (w : World) (k : Nat) : Reading :=
  match w.about k with
  | some op => w.daemon.reading a op
  | none => .nothing

/-- Task `k` is at work for `a`. A reaper is while it makes its list,
and when it closes `a`. -/
def worksFor (a : String) (w : World) (k : Nat) : Bool :=
  match w.jobs[k]? with
  | some .reap => match w.about k with
      | some .timedOut => true
      | some (.write (.close b)) => b == a
      | _ => false
  | some job => job.concerns a
  | none => false

def view (a : String) (w : World) : Act → Option Seen
  | .receive req =>
      if (Job.request req).concerns a then some (.receive req) else none
  | .reap => some .reap
  | .grace i => match w.daemon.graceTimers[i]? with
      | some (b, _) =>
          if b == a then
            some (.grace (rank (fun x => x.1 == a) w.daemon.graceTimers i))
          else none
      | none => none
  | .move k tick =>
      if w.worksFor a k then
        some (.move (rank (Job.concerns a) w.jobs k) tick (w.reading a k))
      else none
  | .lose k => match w.jobs[k]? with
      | some job =>
          if job.concerns a then some (.lose (rank (Job.concerns a) w.jobs k))
          else none
      | none => none
  | .edit _ => none

/-- The answers to the requests of session `a`, newest first, each with
the number of its request among the jobs that concern `a`. -/
def answersIn (a : String) (jobs : List Job) (log : List Obs) :
    List (Nat × ResponseBody) :=
  log.filterMap fun
    | .answered k body =>
        if (jobs[k]?.bind Job.owner) = some a then
          some (rank (Job.concerns a) jobs k, body)
        else none
    | _ => none

def answersTo (a : String) (w : World) : List (Nat × ResponseBody) :=
  answersIn a w.jobs w.daemon.log

end World

-- ======================================================== keeping to one's own

/-- What is left of a job's handler keeps to its session, or to what is
everybody's. -/
def Job.Keeps : Job → Handler ResponseBody → Prop
  | .request (.event ev), p | .request (.stopWait ev), p =>
      Within ev.sessionId False p
  | .grace sessionId _, p => Within sessionId False p
  | .request .prune, p => p.Every fun op => op = .now ∨ ∃ t, op = .write (.prune t)
  | .reap, p => p = sessionReaper ∨ ∃ ids, ids.Nodup ∧ p = closeAll ids

theorem Job.keeps_handler (job : Job) : job.Keeps job.handler := by
  cases job with
  | request req =>
      cases req with
      | event ev => exact within_handleEvent ev
      | stopWait ev => exact within_handleStopWait ev
      | prune => exact ⟨.inl rfl, fun t => ⟨.inr ⟨t, rfl⟩, fun _ => trivial⟩⟩
  | reap => exact .inl rfl
  | grace sessionId gen => exact within_graceClose gen

theorem Job.Keeps.within {job : Job} {p : Handler ResponseBody}
    (h : job.Keeps p) {b : String} (hb : job.owner = some b) :
    Within b False p := by
  cases job with
  | request req =>
      cases req with
      | event ev => exact Option.some.inj hb ▸ h
      | stopWait ev => exact Option.some.inj hb ▸ h
      | prune => cases hb
  | reap => cases hb
  | grace sessionId gen => exact Option.some.inj hb ▸ h

/-- What an operation returns, a handler may take for granted. -/
theorem exec_valid {b : String} {k : Nat} {op : Op} {tick : Tick}
    {d d' : Daemon} {r : op.Res} (h : exec k op tick d = some (d', r)) :
    (within b False).valid () op r := by
  cases op with
  | snapshot sessionId =>
      obtain ⟨⟨log, hex⟩, hvalid⟩ := exec_snapshot_row k sessionId tick d
      rw [hex] at h
      cases h
      exact hvalid
  | cfgFor root => exact fun h => h.elim
  | _ => trivial

/-- The next step of a job's handler keeps to it as well. -/
theorem Job.Keeps.next {job : Job} {k : Nat} {op : Op} {tick : Tick}
    {d d' : Daemon} {r : op.Res} {f : op.Res → Handler ResponseBody}
    (h : job.Keeps (.call op f)) (hex : exec k op tick d = some (d', r)) :
    job.Keeps (f r) := by
  cases job with
  | request req =>
      cases req with
      | event ev => exact h.2 r (exec_valid hex)
      | stopWait ev => exact h.2 r (exec_valid hex)
      | prune => exact h.2 r
  | grace sessionId gen => exact h.2 r (exec_valid hex)
  | reap =>
      rcases h with h | ⟨ids, hnodup, h⟩
      · cases h
        simp only [exec, Option.some.injEq, Prod.mk.injEq] at hex
        refine .inr ⟨_, ?_, rfl⟩
        rw [← hex.2]
        exact (List.Sublist.map _ List.filter_sublist).nodup
          (nodup_listOpenSessions d.store)
      · cases ids with
        | nil => cases h
        | cons b ids =>
            cases h
            exact .inr ⟨ids, hnodup.of_cons, rfl⟩

/-- A job's handler touches the polls of its own session only. -/
theorem Job.Keeps.minds {job : Job} {op : Op}
    {f : op.Res → Handler ResponseBody} (h : job.Keeps (.call op f)) :
    (∃ b, job.owner = some b ∧ op.minds b = true)
      ∨ (∀ b, op ≠ .register b) ∧ ∀ b, op ≠ .cancelWait b := by
  cases job with
  | request req =>
      cases req with
      | event ev => exact .inl ⟨_, rfl, h.1.1⟩
      | stopWait ev => exact .inl ⟨_, rfl, h.1.1⟩
      | prune => rcases h.1 with rfl | ⟨t, rfl⟩ <;> simp
  | grace sessionId gen => exact .inl ⟨_, rfl, h.1.1⟩
  | reap =>
      rcases h with h | ⟨ids, -, h⟩
      · cases h
        simp
      · cases ids with
        | nil => cases h
        | cons b ids =>
            cases h
            simp

namespace World

/-- Polls are registered under their own session, and every number in
use has been given out. -/
structure Tidy (w : World) : Prop where
  numbered : w.Numbered
  keeps : ∀ k task, w.tasks k = some task → task.job.Keeps task.prog
  waits : ∀ b k, w.daemon.waits b = some k →
    w.jobs[k]?.bind Job.owner = some b
  signalled : ∀ k, w.daemon.signalled k = true → k < w.jobs.length
  answered : ∀ k body, .answered k body ∈ w.daemon.log → k < w.jobs.length

theorem tidy_init (disk : Disk) : (init disk).Tidy where
  numbered := numbered_init disk
  keeps k task h := by cases h
  waits b k h := by cases h
  signalled k h := by cases h
  answered k body h := by cases h

/-- What has been said of the polls stays true as jobs are added. -/
private theorem owner_step {w : World} {b : String} {k : Nat}
    (h : w.jobs[k]?.bind Job.owner = some b) (act : Act) :
    (w.step act).jobs[k]?.bind Job.owner = some b := by
  cases hjob : w.jobs[k]? with
  | none =>
      rw [hjob] at h
      cases h
  | some job =>
      rw [w.jobs_step hjob act, ← hjob]
      exact h

private theorem owned_lt {w : World} {b : String} {k : Nat}
    (h : w.jobs[k]?.bind Job.owner = some b) : k < w.jobs.length := by
  cases hjob : w.jobs[k]? with
  | none =>
      rw [hjob] at h
      cases h
  | some job => exact (List.getElem?_eq_some_iff.1 hjob).1

/-- The polls and their cancellations, past one operation. -/
private theorem Tidy.exec {w : World} (h : w.Tidy) {k : Nat} {task : Task}
    {op : Op} {f : op.Res → Handler ResponseBody} {tick : Tick} {d : Daemon}
    {r : op.Res} (ht : w.tasks k = some task) (hprog : task.prog = .call op f)
    (hex : exec k op tick w.daemon = some (d, r)) :
    (∀ b j, d.waits b = some j → w.jobs[j]?.bind Job.owner = some b)
      ∧ ∀ j, d.signalled j = true → j < w.jobs.length := by
  have hkeeps := h.keeps k task ht
  rw [hprog] at hkeeps
  have hsignal : ∀ b j, (w.daemon.signal (w.daemon.waits b)).signalled j = true →
      j < w.jobs.length := by
    intro b j hj
    rcases signalled_signal.1 hj with hj | hj
    · exact h.signalled j hj
    · exact owned_lt (h.waits b j hj)
  rcases exec_waits hex with ⟨b, rfl, hw, hs⟩ | ⟨b, rfl, hw, hs⟩
    | ⟨-, -, hw, hs⟩
  · obtain ⟨b', hb', hminds⟩ := hkeeps.minds.resolve_right fun h => h.1 b rfl
    obtain rfl : b = b' := by simpa [Op.minds] using hminds
    refine ⟨fun c j hj => ?_, fun j hj => hsignal b j (hs ▸ hj)⟩
    rw [hw] at hj
    by_cases hc : c = b
    · subst hc
      rw [upd_same, Option.some.injEq] at hj
      subst hj
      rw [h.numbered k task ht]
      exact hb'
    · rw [upd_other _ _ hc] at hj
      exact h.waits c j hj
  · refine ⟨fun c j hj => ?_, fun j hj => hsignal b j (hs ▸ hj)⟩
    rw [hw] at hj
    by_cases hc : c = b
    · subst hc
      simp at hj
    · rw [upd_other _ _ hc] at hj
      exact h.waits c j hj
  · exact ⟨fun c j hj => h.waits c j (hw ▸ hj),
      fun j hj => h.signalled j (hs ▸ hj)⟩

theorem tidy_step {w : World} (h : w.Tidy) (act : Act) : (w.step act).Tidy := by
  have hlength := (w.step_jobs act).length_le
  have hdaemon : (∀ b j, (w.step act).daemon.waits b = some j →
        w.jobs[j]?.bind Job.owner = some b)
      ∧ ∀ j, (w.step act).daemon.signalled j = true → j < w.jobs.length := by
    rcases w.step_cases act with
      ⟨k, task, op, f, tick, d, r, -, ht, hprog, -, hex, heq⟩
      | ⟨k, tick, task, body, -, -, -, heq⟩ | ⟨disk, graceTimers, heq, -⟩
    · rw [heq]
      exact h.exec ht hprog hex
    · rw [heq]
      exact ⟨h.waits, h.signalled⟩
    · rw [heq]
      exact ⟨h.waits, h.signalled⟩
  refine ⟨numbered_step h.numbered act, ?_,
    fun b k hk => owner_step (hdaemon.1 b k hk) act,
    fun k hk => (hdaemon.2 k hk).trans_le hlength, ?_⟩
  · intro k task ht
    rcases step_tasks ht with hold | ⟨job, client, -, -, -, rfl⟩
      | ⟨old, op, f, tick, d, r, -, hold, hprog, hex, -, rfl⟩
      | ⟨ev, started, op, f, -, -, -, rfl⟩
    · exact h.keeps k task hold
    · exact job.keeps_handler
    · have hkeeps := h.keeps k old hold
      rw [hprog] at hkeeps
      exact hkeeps.next hex
    · exact within_onPollLost started
  · intro k body hk
    by_cases hold : .answered k body ∈ w.daemon.log
    · exact (h.answered k body hold).trans_le hlength
    · obtain ⟨task, ht, -⟩ := answered_new hk hold
      exact (h.numbered.lt ht).trans_le hlength

end World

-- ============================================================== reapers

/-- How far a reaper has got with session `a`: it has not listed yet, or
it has and `a` is still to be closed, or not. -/
def Reaping (a : String) (stage : Option Bool) : Option Task → Prop
  | none => stage = some false
  | some task => (task.prog = sessionReaper ∧ stage = none)
      ∨ ∃ ids, ids.Nodup ∧ task.prog = closeAll ids
        ∧ stage = some (decide (a ∈ ids))

theorem closeAll_injective : Function.Injective closeAll := by
  intro l l' h
  induction l generalizing l' with
  | nil =>
      cases l' with
      | nil => rfl
      | cons b l' => cases h
  | cons b l ih =>
      cases l' with
      | nil => cases h
      | cons b' l' =>
          have hop : Op.write (.close b) = Op.write (.close b') := by
            injection h
          obtain rfl : b = b' := by simpa using hop
          have hrest : (fun _ : Unit => closeAll l) = fun _ => closeAll l' := by
            injection h
          rw [ih (congrFun hrest ())]

namespace World

-- ============================================================== one task

section move

variable {w : World} {k : Nat} {tick : Tick}

theorem move_absent (ht : w.tasks k = none) : w.step (.move k tick) = w := by
  simp [step, move, ht]

theorem move_ret {task : Task} {body : ResponseBody}
    (ht : w.tasks k = some task) (hprog : task.prog = .ret body) :
    w.step (.move k tick) = { w with
      tasks := upd w.tasks k none
      daemon := { w.daemon with
        log := if task.client then .answered k body :: w.daemon.log
          else w.daemon.log } } := by
  obtain ⟨job, started, client, prog⟩ := task
  simp only at hprog
  subst hprog
  simp only [step, move, finish, ht]
  cases client <;> rfl

section call

variable {task : Task} {op : Op} {f : op.Res → Handler ResponseBody}
  (ht : w.tasks k = some task) (hprog : task.prog = .call op f)

include ht hprog

theorem move_stuck (hex : exec k op tick w.daemon = none) :
    w.step (.move k tick) = w := by
  simp [step, move, ht, hprog, hex]

theorem move_call {d : Daemon} {r : op.Res}
    (hex : exec k op tick w.daemon = some (d, r)) :
    w.step (.move k tick) = w.resumed k task d (f r) := by
  simp [step, move, ht, hprog, hex]

end call

end move

-- ===================================================== what nobody sees

variable {a : String}

/-- Nothing that concerns session `a` has happened. -/
structure Frame (a : String) (w w₁ : World) : Prop where
  daemon : w.daemon.Frame a (Marked (Job.concerns a) w.jobs) w₁.daemon
  jobs : w₁.jobs = w.jobs
    ∨ ∃ job : Job, job.concerns a = false ∧ w₁.jobs = w.jobs ++ [job]
  tasks : ∀ k, Marked (Job.concerns a) w.jobs k → w₁.tasks k = w.tasks k
    ∨ (w.jobs[k]? = some .reap ∧ ∀ stage, Reaping a stage (w.tasks k) →
      Reaping a stage (w₁.tasks k))
  answers : w₁.answersTo a = w.answersTo a

theorem Frame.refl (w : World) : Frame a w w :=
  ⟨.refl _, .inl rfl, fun _ _ => .inl rfl, rfl⟩

/-- Answers are numbered once and for all. -/
theorem Tidy.answersIn_append {w : World} (h : w.Tidy) (job : Job) :
    answersIn a (w.jobs ++ [job]) w.daemon.log = w.answersTo a := by
  refine List.filterMap_congr fun o ho => ?_
  cases o with
  | answered k body =>
      have hk := h.answered k body ho
      dsimp only
      rw [List.getElem?_append_left hk, rank_append hk.le]
  | _ => rfl

/-- Starting what does not concern `a`. -/
private theorem frame_spawn {w : World} (h : w.Tidy) {job : Job}
    (hjob : job.concerns a = false) (client : Bool) :
    Frame a w (w.spawn job client) where
  daemon := .refl _
  jobs := .inr ⟨job, hjob, rfl⟩
  tasks _ hk := .inl (upd_other _ _ hk.lt.ne)
  answers := h.answersIn_append job

/-- Operations answer nobody. -/
theorem exec_answers {k : Nat} {op : Op} {tick : Tick} {d d' : Daemon}
    {r : op.Res} (jobs : List Job) (h : exec k op tick d = some (d', r)) :
    answersIn a jobs d'.log = answersIn a jobs d.log := by
  have hnone : ∀ obs : List Obs, (∀ o ∈ obs, ∀ k body, o ≠ .answered k body) →
      answersIn a jobs (obs ++ d.log) = answersIn a jobs d.log := by
    intro obs hobs
    rw [answersIn, List.filterMap_append, List.filterMap_eq_nil_iff.2, answersIn,
      List.nil_append]
    intro o ho
    cases o with
    | answered k body => exact absurd rfl (hobs _ ho k body)
    | _ => rfl
  rcases exec_entries h with ⟨o, hdeed, hlog⟩ | ⟨-, obs, hlog, hobs⟩
  · rw [hlog]
    refine hnone [o] fun o' ho' _ body heq => ?_
    rw [List.mem_singleton] at ho'
    exact Op.deed_ne_answered (hdeed.trans (congrArg some (ho'.symm.trans heq)))
  · rw [hlog]
    refine hnone obs fun o ho _ body heq => ?_
    rw [heq] at ho
    exact hobs _ ho

/-- An operation of a job that is another session's. -/
private theorem frame_exec {w : World} (h : w.Tidy) {k : Nat} {task : Task}
    {op : Op} {f : op.Res → Handler ResponseBody} {tick : Tick} {d : Daemon}
    {r : op.Res} (ht : w.tasks k = some task) (hprog : task.prog = .call op f)
    (hex : exec k op tick w.daemon = some (d, r)) {b : String}
    (hb : task.job.owner = some b) (hne : b ≠ a) :
    Frame a w (w.resumed k task d (f r)) := by
  have hkeeps := (h.keeps k task ht).within hb
  rw [hprog] at hkeeps
  have hself : ¬Marked (Job.concerns a) w.jobs k := by
    rintro ⟨job, hjob, hmine⟩
    rw [h.numbered k task ht] at hjob
    cases hjob
    rw [Job.concerns, hb] at hmine
    simp [hne] at hmine
  refine ⟨exec_frame hne ?_ hkeeps.1.1 hex, .inl rfl, fun j hj => .inl ?_,
    exec_answers _ hex⟩
  · rintro j hj ⟨job, hjob, hmine⟩
    have howner := h.waits b j hj
    rw [hjob, Option.bind_some] at howner
    rw [Job.concerns, howner] at hmine
    simp [hne] at hmine
  · exact upd_other _ _ fun heq => hself (heq ▸ hj)

/-- An answer, if it is one for `a`. -/
theorem answersIn_cons (jobs : List Job) (k : Nat) (body : ResponseBody)
    (log : List Obs) : answersIn a jobs (.answered k body :: log)
      = (if jobs[k]?.bind Job.owner = some a then
          [(rank (Job.concerns a) jobs k, body)] else [])
        ++ answersIn a jobs log := by
  rw [answersIn, List.filterMap_cons]
  dsimp only
  by_cases h : jobs[k]?.bind Job.owner = some a
  · rw [if_pos h, if_pos h]
    rfl
  · rw [if_neg h, if_neg h]
    rfl

/-- A task that concerns `a`, if at all, as a reaper done with it, goes. -/
private theorem frame_ret {w : World} {k : Nat} {task : Task}
    {body : ResponseBody} (ht : w.tasks k = some task)
    (hprog : task.prog = .ret body) (howner : w.jobs[k]?.bind Job.owner ≠ some a)
    (hk : Marked (Job.concerns a) w.jobs k → w.jobs[k]? = some .reap
      ∧ ∀ stage, Reaping a stage (some task) → stage = some false)
    (tick : Tick) : Frame a w (w.step (.move k tick)) := by
  rw [move_ret ht hprog]
  refine ⟨.of_store (.refl a _) rfl, .inl rfl, fun j hj => ?_, ?_⟩
  · by_cases heq : j = k
    · subst heq
      obtain ⟨hreap, hstage⟩ := hk hj
      refine .inr ⟨hreap, fun stage hs => ?_⟩
      rw [ht] at hs
      dsimp only
      rw [upd_same]
      exact hstage stage hs
    · exact .inl (upd_other _ _ heq)
  · show answersIn a w.jobs (if task.client then _ else _) = _
    split
    · rw [answersIn_cons, if_neg howner]
      rfl
    · rfl

/-- A reaper at what does not concern `a`. -/
private theorem frame_reaper {w : World} (h : w.Tidy) {k : Nat} {task : Task}
    (ht : w.tasks k = some task) (hjob : task.job = .reap)
    (hview : w.worksFor a k = false) (tick : Tick) :
    Frame a w (w.step (.move k tick)) := by
  have hjobs : w.jobs[k]? = some .reap := hjob ▸ h.numbered k task ht
  have hkeeps := h.keeps k task ht
  rw [hjob] at hkeeps
  rcases hkeeps with hprog | ⟨ids, hnodup, hprog⟩
  · -- making the list is seen
    have hab : w.about k = some .timedOut := about_of_prog ht hprog
    simp [worksFor, hjobs, hab] at hview
  · cases ids with
    | nil =>
        refine frame_ret ht hprog (by simp [hjobs, Job.owner]) (fun _ =>
          ⟨hjobs, fun stage hstage => ?_⟩) tick
        rcases hstage with ⟨hfresh, -⟩ | ⟨ids, -, hids, rfl⟩
        · rw [hprog] at hfresh
          cases hfresh
        · rw [hprog] at hids
          rw [← closeAll_injective hids]
          rfl
    | cons b ids =>
        have hab : w.about k = some (.write (.close b)) := about_of_prog ht hprog
        have hne : b ≠ a := by simpa [worksFor, hjobs, hab] using hview
        rw [move_call ht hprog rfl]
        refine ⟨.of_store (sameSlice_closeSession hne _) rfl, .inl rfl,
          fun j hj => ?_, rfl⟩
        by_cases heq : j = k
        · subst heq
          refine .inr ⟨hjobs, fun stage hstage => ?_⟩
          rw [ht] at hstage
          simp only [resumed, upd_same]
          rcases hstage with ⟨hfresh, -⟩ | ⟨ids', -, hids, rfl⟩
          · rw [hprog] at hfresh
            cases hfresh
          · rw [hprog] at hids
            rw [← closeAll_injective hids]
            exact .inr ⟨ids, hnodup.of_cons, rfl, by simp [hne.symm]⟩
        · exact .inl (upd_other _ _ heq)

/-- A step that is not seen. -/
theorem frame_step {w : World} (h : w.Tidy) {act : Act}
    (hview : w.view a act = none) : Frame a w (w.step act) := by
  cases act with
  | receive req =>
      refine frame_spawn h ?_ true
      simpa [view] using hview
  | reap => cases hview
  | edit disk =>
      exact ⟨.of_store (.refl a _) rfl, .inl rfl, fun _ _ => .inl rfl, rfl⟩
  | grace i =>
      simp only [step, startGrace]
      split
      next b gen htimer =>
        have hne : b ≠ a := by simpa [view, htimer] using hview
        have hother : (Job.grace b gen).concerns a = false := by
          simp [Job.concerns, Job.owner, hne]
        have hspawn := frame_spawn
          (w := { w with
            daemon.graceTimers := w.daemon.graceTimers.eraseIdx i })
          ⟨h.numbered, h.keeps, h.waits, h.signalled, h.answered⟩ hother false
        refine ⟨?_, hspawn.jobs, hspawn.tasks, hspawn.answers⟩
        exact { hspawn.daemon with
          timers := filter_eraseIdx_of_unmarked htimer (by simp [hne]) }
      next => exact .refl w
  | lose k =>
      simp only [step, losePoll]
      split
      next ev started op f ht =>
        have hjob := h.numbered k _ ht
        have hne : ev.sessionId ≠ a := by
          simpa [view, hjob, Job.concerns, Job.owner] using hview
        split
        · refine ⟨.refl _, .inl rfl, fun j hj => .inl (upd_other _ _ ?_), rfl⟩
          rintro rfl
          obtain ⟨job, hjob', hmine⟩ := hj
          rw [hjob] at hjob'
          cases hjob'
          simp [Job.concerns, Job.owner, hne] at hmine
        · exact .refl w
      next => exact .refl w
  | move k tick =>
      have hworks : w.worksFor a k = false := by simpa [view] using hview
      cases ht : w.tasks k with
      | none =>
          rw [move_absent ht]
          exact .refl w
      | some task =>
          have hjobs := h.numbered k task ht
          by_cases hreap : task.job = .reap
          · exact frame_reaper h ht hreap hworks tick
          · -- another session's task
            have hmine : task.job.concerns a = false := by
              unfold worksFor at hworks
              rw [hjobs] at hworks
              split at hworks
              next heq => exact absurd (Option.some.inj heq) hreap
              next job heq => exact Option.some.inj heq ▸ hworks
              next heq => cases heq
            obtain ⟨b, hb, hne⟩ : ∃ b, task.job.owner = some b ∧ b ≠ a := by
              unfold Job.concerns at hmine
              cases howner : task.job.owner with
              | none => simp [howner] at hmine
              | some b => exact ⟨b, rfl, by simpa [howner] using hmine⟩
            have howner : w.jobs[k]?.bind Job.owner ≠ some a := by
              rw [hjobs, Option.bind_some, hb]
              exact fun heq => hne (Option.some.inj heq)
            cases hprog : task.prog with
            | ret body =>
                refine frame_ret ht hprog howner (fun hk => ?_) tick
                obtain ⟨job, hjob, hjmine⟩ := hk
                rw [hjobs, Option.some.injEq] at hjob
                rw [← hjob, hmine] at hjmine
                cases hjmine
            | call op f =>
                cases hex : exec k op tick w.daemon with
                | none =>
                    rw [move_stuck ht hprog hex]
                    exact .refl w
                | some dr =>
                    rw [move_call ht hprog hex]
                    exact frame_exec h ht hprog hex hb hne

/-- What a seen step is. -/
theorem view_cases {w : World} {act : Act} {v : Seen}
    (h : w.view a act = some v) : match v with
    | .receive req => act = .receive req ∧ (Job.request req).concerns a = true
    | .reap => act = .reap
    | .grace i => ∃ j gen, act = .grace j
        ∧ w.daemon.graceTimers[j]? = some (a, gen)
        ∧ rank (fun x => x.1 == a) w.daemon.graceTimers j = i
    | .move i tick reading => ∃ k, act = .move k tick ∧ w.worksFor a k = true
        ∧ rank (Job.concerns a) w.jobs k = i ∧ w.reading a k = reading
    | .lose i => ∃ k, act = .lose k ∧ Marked (Job.concerns a) w.jobs k
        ∧ rank (Job.concerns a) w.jobs k = i := by
  cases act with
  | receive req =>
      simp only [view] at h
      split at h
      next hreq =>
        cases h
        exact ⟨rfl, hreq⟩
      next => cases h
  | reap =>
      cases h
      rfl
  | edit disk => cases h
  | grace j =>
      simp only [view] at h
      split at h
      next b gen htimer =>
        split at h
        next hb =>
          cases h
          rw [beq_iff_eq] at hb
          exact ⟨j, gen, rfl, hb ▸ htimer, rfl⟩
        next => cases h
      next => cases h
  | move k tick =>
      simp only [view] at h
      split at h
      next hworks =>
        cases h
        exact ⟨k, rfl, hworks, rfl, rfl⟩
      next => cases h
  | lose k =>
      simp only [view] at h
      split at h
      next job hjob =>
        split at h
        next hmine =>
          cases h
          exact ⟨k, rfl, ⟨job, hjob, hmine⟩, rfl⟩
        next => cases h
      next => cases h

theorem marked_of_worksFor {w : World} {k : Nat} (h : w.worksFor a k = true) :
    Marked (Job.concerns a) w.jobs k := by
  unfold worksFor at h
  split at h
  next hjob => exact ⟨_, hjob, rfl⟩
  next job _ hjob => exact ⟨job, hjob, h⟩
  next => cases h

end World

end Autofork
