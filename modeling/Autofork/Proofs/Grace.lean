/-
The grace close.

Of one session the requests, the lost polls and the grace timers are
visitors and timers at a desk (`World.desk`), and every step of the
daemon is a turn there (`desk_step`). In a run whose steps are `graceful`
a grace timer closes only a session with no poll parked that nothing was
received from since the loss that started it (`grace_closes_dead`). The
server may also find the old connection closed when a newer poll has
long replaced it: then a session is closed with a poll parked
(`grace_closes_parked`).
-/
import Autofork.Lib.Grace
import Autofork.Proofs.Walk

namespace Autofork

open Lib

-- ============================================================== the desk

/-- A request of session `a`. -/
def Request.concerns (a : String) : Request → Bool
  | .event ev | .stopWait ev => ev.sessionId == a
  | .prune => false

/-- How far a task has got, as far as session `a` is concerned. -/
def Task.duty (a : String) (task : Task) : Duty :=
  match task.job with
  | .request (.event ev) =>
      if ev.sessionId ≠ a then .over
      else if task.started then .heard false else .knocking false
  | .request (.stopWait ev) =>
      if ev.sessionId ≠ a then .over
      else if task.client then
        if task.started then .heard true else .knocking true
      else match task.prog with
        | .call .nextCloseGen _ => .noticed
        | .call (.insertPendingClose _ gen) _ => .drawn gen
        | .call (.spawnGrace _ gen) _ => .filed gen
        | _ => .over
  | .grace sessionId gen =>
      if sessionId ≠ a then .over
      else match task.prog with
        | .call (.takePendingClose ..) _ => .due gen
        | .call (.write _) _ => .closing gen
        | _ => .over
  | _ => .over

namespace World

def desk (a : String) (w : World) : Desk where
  duty k := match w.tasks k with
    | some task => task.duty a
    | none => if k < w.jobs.length then .over else .fresh
  pending := w.daemon.pendingClose a
  gen := w.daemon.closeGen

/-- Whose turn an action is. -/
def subject (w : World) : Act → Nat
  | .move k _ | .lose k => k
  | _ => w.jobs.length

end World

-- ========================================================== calm programs

/-- An operation that has no part in the grace close. -/
def Op.calm : Op → Bool
  | .clearPendingClose _ | .nextCloseGen | .insertPendingClose ..
  | .takePendingClose .. | .spawnGrace .. => false
  | _ => true

/-- A program of such operations. -/
abbrev Calm {α : Type} (p : Handler α) : Prop :=
  p.Every fun op => op.calm = true

theorem calm_go {op : Op} (h : op.calm = true) : Calm op.go :=
  ⟨h, fun _ => trivial⟩

theorem Polls.calm {α : Type} {p : Handler α} (h : Polls p) : Calm p := by
  refine Prog.Every.mono (fun op hop => ?_) h
  cases op <;> first | rfl | cases hop

theorem Sifts.calm {α : Type} {p : Handler α} (h : Sifts p) : Calm p := by
  refine Prog.Every.mono (fun op hop => ?_) h
  cases op <;> first | rfl | cases hop

/-- A request of a session is heard first, and then has no further part
in the grace close. -/
theorem handleEvent_hears (ev : Event) : ∃ f, handleEvent ev
    = .call (.clearPendingClose ev.sessionId) f ∧ ∀ r, Calm (f r) := by
  refine ⟨_, rfl, fun _ => (calm_go rfl).bind fun t => ?_⟩
  split
  · exact (calm_go rfl).bind fun _ => trivial
  · exact (sifts_classifyPrompt ev t).calm.bind fun waking =>
      (calm_go rfl).bind fun _ => (calm_go rfl).bind fun _ => trivial
  · exact (calm_go rfl).bind fun _ => (calm_go rfl).bind fun _ => trivial
  · trivial

theorem handleStopWait_hears (ev : Event) : ∃ f, handleStopWait ev
    = .call (.clearPendingClose ev.sessionId) f ∧ ∀ r, Calm (f r) := by
  refine ⟨_, rfl, fun _ => (calm_go rfl).bind fun t => (calm_go rfl).bind fun _ =>
    (sifts_ingestTranscript ev).calm.bind fun promptTokens =>
    (calm_go rfl).bind fun cfg => (calm_go rfl).bind fun _ =>
    (calm_go rfl).bind fun _ => ?_⟩
  exact (polls_parkedPoll ..).calm.bind fun body =>
    (calm_go rfl).bind fun _ => trivial

theorem calm_sessionReaper : Calm sessionReaper := by
  refine (calm_go rfl).bind fun cutoffs => ?_
  induction cutoffs with
  | nil => trivial
  | cons b rest ih => exact (calm_go rfl).bind fun _ => ih

theorem calm_handlePrune : Calm handlePrune :=
  (calm_go rfl).bind fun _ => (calm_go rfl).bind fun _ => trivial

/-- Calm operations leave the pending closes and the generations
alone. -/
theorem exec_calm {k : Nat} {op : Op} {tick : Tick} {d d' : Daemon}
    {r : op.Res} (hop : op.calm = true)
    (h : exec k op tick d = some (d', r)) :
    d'.pendingClose = d.pendingClose ∧ d'.closeGen = d.closeGen := by
  have hsignal : ∀ j, (d.signal j).pendingClose = d.pendingClose
      ∧ (d.signal j).closeGen = d.closeGen := by
    intro j
    cases j <;> exact ⟨rfl, rfl⟩
  cases op with
  | select secs =>
      cases hb : tick.branch <;> simp only [exec, hb] at h
      · split at h
        · cases h
          exact ⟨rfl, rfl⟩
        · cases h
      · split at h
        · cases h
          exact ⟨rfl, rfl⟩
        · cases h
      · cases h
        exact ⟨rfl, rfl⟩
  | snapshot b =>
      simp only [exec] at h
      split at h <;> cases h <;> exact ⟨rfl, rfl⟩
  | register b =>
      cases h
      exact hsignal _
  | cancelWait b =>
      cases h
      exact hsignal _
  | clearPendingClose b => cases hop
  | nextCloseGen => cases hop
  | insertPendingClose b g => cases hop
  | takePendingClose b g => cases hop
  | spawnGrace b g => cases hop
  | _ =>
      cases h
      exact ⟨rfl, rfl⟩

-- ====================================================== what tasks are at

/-- What is left of a lost poll's handler. -/
inductive Losing (sessionId : String) : Handler ResponseBody → Prop
  | noticed (parked : Bool) : Losing sessionId (onPollLost sessionId parked)
  | drawn (gen : Nat) (parked : Bool) : Losing sessionId do
      (Op.insertPendingClose sessionId gen).go
      (Op.spawnGrace sessionId gen).go
      if parked then (Op.unpark sessionId).go
      pure .waited
  | filed (gen : Nat) (parked : Bool) : Losing sessionId do
      (Op.spawnGrace sessionId gen).go
      if parked then (Op.unpark sessionId).go
      pure .waited
  | leaving {p} (h : Calm p) : Losing sessionId p

/-- What a task is left with. -/
def Task.Left (task : Task) : Prop :=
  match task.job with
  | .request (.event ev) => task.client = true
      ∧ if task.started then Calm task.prog else task.prog = handleEvent ev
  | .request (.stopWait ev) =>
      if task.client then
        if task.started then Calm task.prog else task.prog = handleStopWait ev
      else Losing ev.sessionId task.prog
  | .grace sessionId gen => task.prog = graceClose sessionId gen
      ∨ task.prog = (do (Op.write (.closeIfOpen sessionId)).go; pure .ack)
      ∨ task.prog = .ret .ack
  | _ => Calm task.prog

/-- A new task is left with all of its handler. -/
theorem left_new (job : Job) (client : Bool)
    (hclient : ∀ req, job = .request req → client = true) :
    ({ job, client, prog := job.handler } : Task).Left := by
  cases job with
  | request req =>
      obtain rfl := hclient req rfl
      cases req with
      | event ev => exact ⟨rfl, rfl⟩
      | stopWait ev => rfl
      | prune => exact calm_handlePrune
  | reap => exact calm_sessionReaper
  | grace sessionId gen => exact .inl rfl

/-- A task that is left with nothing neither knocks nor is being
lost. -/
theorem duty_of_ret {task : Task} {a : String} {body : ResponseBody}
    (h : task.Left) (hprog : task.prog = .ret body) :
    (task.duty a).underway = false ∧ (task.duty a).knocks = false := by
  obtain ⟨job, started, client, prog⟩ := task
  simp only at hprog
  subst hprog
  cases job with
  | request req =>
      cases req with
      | event ev =>
          simp only [Task.duty]
          cases started with
          | true => split <;> exact ⟨rfl, rfl⟩
          | false => cases h.2
      | stopWait ev =>
          simp only [Task.duty]
          cases client with
          | true =>
              cases started with
              | true => split <;> exact ⟨rfl, rfl⟩
              | false => cases h
          | false => split <;> exact ⟨rfl, rfl⟩
      | prune => exact ⟨rfl, rfl⟩
  | reap => exact ⟨rfl, rfl⟩
  | grace sessionId gen =>
      simp only [Task.duty]
      split <;> exact ⟨rfl, rfl⟩

/-- A lost poll that has filed its loss is gone. -/
private theorem duty_leaving {ev : Event} {started : Bool}
    {prog : Handler ResponseBody} (h : Calm prog) (a : String) :
    (⟨.request (.stopWait ev), started, false, prog⟩ : Task).duty a = .over := by
  simp only [Task.duty]
  split
  · rfl
  · simp only [Bool.false_eq_true, if_false]
    split
    · cases h.1
    · cases h.1
    · cases h.1
    · rfl

variable {a : String} {k : Nat} {tick : Tick} {d d' : Daemon}

private theorem losing_turn {ev : Event} {started : Bool} {op : Op}
    {f : op.Res → Handler ResponseBody} {r : op.Res}
    (h : Losing ev.sessionId (.call op f))
    (hexec : exec k op tick d = some (d', r)) :
    Losing ev.sessionId (f r) ∧ Desk.Turn
      ((⟨.request (.stopWait ev), started, false, .call op f⟩ : Task).duty a)
      (d.pendingClose a) d.closeGen
      ((⟨.request (.stopWait ev), true, false, f r⟩ : Task).duty a)
      (d'.pendingClose a) d'.closeGen := by
  generalize hp : Prog.call op f = prog at h
  cases h with
  | noticed parked =>
      cases hp
      cases hexec
      refine ⟨.drawn _ parked, ?_⟩
      by_cases ha : ev.sessionId = a
      · simp only [Task.duty, ha, ne_eq, not_true, if_false]
        exact .draw _ _
      · simp only [Task.duty, ha, ne_eq, not_false_eq_true, if_true]
        exact .stay _ _ (Nat.le_succ _)
  | drawn gen parked =>
      cases hp
      cases hexec
      refine ⟨.filed gen parked, ?_⟩
      by_cases ha : ev.sessionId = a
      · subst ha
        simp only [Task.duty, ne_eq, not_true, if_false, upd_same]
        exact .file _ _ _
      · simp only [Task.duty, ha, ne_eq, not_false_eq_true, if_true]
        rw [upd_other]
        · exact .stay _ _ (Nat.le_refl _)
        · exact fun h => ha h.symm
  | filed gen parked =>
      cases hp
      cases hexec
      have hcalm : Calm (do
          if parked then (Op.unpark ev.sessionId).go
          pure ResponseBody.waited) := by
        split
        · exact (calm_go rfl).bind fun _ => trivial
        · trivial
      refine ⟨.leaving hcalm, ?_⟩
      have hover : (⟨.request (.stopWait ev), true, false, _⟩ : Task).duty a
          = .over := duty_leaving hcalm a
      have hturn : ∀ x : Duty, x = .filed gen ∨ x = .over → Desk.Turn x
          (d.pendingClose a) d.closeGen .over (d.pendingClose a) d.closeGen := by
        rintro x (rfl | rfl)
        · exact .leave rfl rfl _ _
        · exact .stay _ _ (Nat.le_refl _)
      rw [← hover] at hturn
      refine hturn _ ?_
      by_cases ha : ev.sessionId = a
      · exact .inl (if_neg (not_not.2 ha))
      · exact .inr ((if_pos ha).trans hover.symm)
  | leaving hcalm =>
      subst hp
      obtain ⟨hpending, hgen⟩ := exec_calm hcalm.1 hexec
      refine ⟨.leaving (hcalm.2 r), ?_⟩
      rw [duty_leaving hcalm, duty_leaving (hcalm.2 r), hpending, hgen]
      exact .stay _ _ (Nat.le_refl _)

/-- A request that is heard, or has been. -/
private theorem request_turn {b : String} {w started : Bool} {op : Op}
    {f : op.Res → Handler ResponseBody} {r : op.Res}
    {handler : Handler ResponseBody}
    (hhears : ∃ g, handler = .call (.clearPendingClose b) g ∧ ∀ r, Calm (g r))
    (h : if started then Calm (.call op f) else .call op f = handler)
    (hexec : exec k op tick d = some (d', r)) :
    Calm (f r) ∧ Desk.Turn
      (if b ≠ a then .over else if started then .heard w else .knocking w)
      (d.pendingClose a) d.closeGen (if b ≠ a then .over else .heard w)
      (d'.pendingClose a) d'.closeGen := by
  cases started with
  | true =>
      rw [if_pos rfl] at h
      obtain ⟨hpending, hgen⟩ := exec_calm h.1 hexec
      rw [hpending, hgen]
      exact ⟨h.2 r, .stay _ _ (Nat.le_refl _)⟩
  | false =>
      obtain ⟨g, rfl, hcalm⟩ := hhears
      rw [if_neg Bool.false_ne_true] at h
      cases h
      cases hexec
      refine ⟨hcalm _, ?_⟩
      by_cases ha : b = a
      · subst ha
        simp only [ne_eq, not_true, if_false, Bool.false_eq_true, upd_same]
        exact .hear _ _ _
      · simp only [ne_eq, ha, not_false_eq_true, if_true]
        rw [upd_other]
        · exact .stay _ _ (Nat.le_refl _)
        · exact fun h => ha h.symm

private theorem grace_turn {b : String} {gen : Nat} {started client : Bool}
    {op : Op} {f : op.Res → Handler ResponseBody} {r : op.Res}
    (h : (⟨.grace b gen, started, client, .call op f⟩ : Task).Left)
    (hexec : exec k op tick d = some (d', r)) :
    (⟨.grace b gen, true, client, f r⟩ : Task).Left ∧ Desk.Turn
      ((⟨.grace b gen, started, client, .call op f⟩ : Task).duty a)
      (d.pendingClose a) d.closeGen
      ((⟨.grace b gen, true, client, f r⟩ : Task).duty a)
      (d'.pendingClose a) d'.closeGen := by
  rcases h with h | h | h
  · cases h
    simp only [exec] at hexec
    split at hexec
    next hown =>
      cases hexec
      refine ⟨.inr (.inl rfl), ?_⟩
      by_cases ha : b = a
      · subst ha
        show Desk.Turn (if b ≠ b then .over else .due gen) (d.pendingClose b)
          d.closeGen (if b ≠ b then .over else .closing gen) _ _
        simp only [ne_eq, not_true, if_false, upd_same, hown]
        exact .take gen _
      · simp only [Task.duty, ne_eq, ha, not_false_eq_true, if_true]
        rw [upd_other]
        · exact .stay _ _ (Nat.le_refl _)
        · exact fun h => ha h.symm
    next hnot =>
      cases hexec
      refine ⟨.inr (.inr rfl), ?_⟩
      by_cases ha : b = a
      · subst ha
        show Desk.Turn (if b ≠ b then .over else .due gen) (d.pendingClose b)
          d.closeGen (if b ≠ b then .over else .over) _ _
        simp only [ne_eq, not_true, if_false]
        exact .leave rfl rfl _ _
      · simp only [Task.duty, ne_eq, ha, not_false_eq_true, if_true]
        exact .stay _ _ (Nat.le_refl _)
  · cases h
    obtain ⟨hpending, hgen⟩ := exec_calm rfl hexec
    rw [hpending, hgen]
    refine ⟨.inr (.inr rfl), ?_⟩
    show Desk.Turn (if b ≠ a then .over else .closing gen) _ _
      (if b ≠ a then .over else .over) _ _
    by_cases ha : b = a
    · simp only [ne_eq, ha, not_true, if_false]
      exact .leave rfl rfl _ _
    · simp only [ne_eq, ha, not_false_eq_true, if_true]
      exact .stay _ _ (Nat.le_refl _)
  · cases h

/-- What a task's operation comes to at the desk. -/
theorem task_turn {task : Task} {op : Op}
    {f : op.Res → Handler ResponseBody} {r : op.Res} (h : task.Left)
    (hprog : task.prog = .call op f)
    (hexec : exec k op tick d = some (d', r)) :
    ({ task with started := true, prog := f r } : Task).Left ∧ Desk.Turn
      (task.duty a) (d.pendingClose a) d.closeGen
      (({ task with started := true, prog := f r } : Task).duty a)
      (d'.pendingClose a) d'.closeGen := by
  obtain ⟨job, started, client, prog⟩ := task
  simp only at hprog
  subst hprog
  have hother : Calm (.call op f) → Calm (f r) ∧ Desk.Turn .over
      (d.pendingClose a) d.closeGen .over (d'.pendingClose a) d'.closeGen := by
    intro hcalm
    obtain ⟨hpending, hgen⟩ := exec_calm hcalm.1 hexec
    rw [hpending, hgen]
    exact ⟨hcalm.2 r, .stay _ _ (Nat.le_refl _)⟩
  cases job with
  | request req =>
      cases req with
      | event ev =>
          obtain ⟨hcalm, hturn⟩ :=
            request_turn (handleEvent_hears ev) h.2 hexec
          exact ⟨⟨h.1, hcalm⟩, hturn⟩
      | stopWait ev =>
          cases client with
          | true =>
              obtain ⟨hcalm, hturn⟩ :=
                request_turn (handleStopWait_hears ev) h hexec
              exact ⟨hcalm, hturn⟩
          | false => exact losing_turn h hexec
      | prune => exact hother h
  | reap => exact hother h
  | grace b gen => exact grace_turn h hexec

-- =================================================== steps at the desk

namespace World

/-- A poll that waits has been heard, and its client is there. -/
theorem heard_iff {w : World} : (w.desk a).duty k = .heard true
    ↔ ∃ ev prog, w.tasks k = some ⟨.request (.stopWait ev), true, true, prog⟩
      ∧ ev.sessionId = a := by
  constructor
  · intro h
    simp only [desk] at h
    cases htask : w.tasks k with
    | none =>
        rw [htask] at h
        dsimp only at h
        split at h <;> cases h
    | some task =>
        rw [htask] at h
        obtain ⟨job, started, client, prog⟩ := task
        cases job with
        | request req =>
            cases req with
            | event ev =>
                simp only [Task.duty] at h
                split at h
                · cases h
                · split at h <;> cases h
            | stopWait ev =>
                simp only [Task.duty] at h
                split at h
                · cases h
                next ha =>
                  cases client with
                  | true =>
                      cases started with
                      | true => exact ⟨ev, prog, rfl, not_not.1 ha⟩
                      | false => cases h
                  | false =>
                      rw [if_neg Bool.false_ne_true] at h
                      split at h <;> cases h
            | prune => cases h
        | reap => cases h
        | grace b gen =>
            simp only [Task.duty] at h
            split at h
            · cases h
            · split at h <;> cases h
  · rintro ⟨ev, prog, htask, ha⟩
    simp only [desk, htask, Task.duty, ha, ne_eq, not_true, if_false, if_true]

/-- What every task is left with. -/
def Left (w : World) : Prop :=
  ∀ k task, w.tasks k = some task → task.Left

theorem left_init (disk : Disk) : (init disk).Left := by
  intro k task h
  cases h

/-- Where only task `k` changes, the others stay as they are. -/
private theorem desk_others {w w' : World}
    (htasks : ∀ j, j ≠ k → w'.tasks j = w.tasks j)
    (hjobs : w'.jobs = w.jobs
      ∨ (k = w.jobs.length ∧ w'.jobs.length = w.jobs.length + 1)) :
    ∀ j, j ≠ k → (w'.desk a).duty j = (w.desk a).duty j := by
  intro j hj
  simp only [desk, htasks j hj]
  cases w.tasks j with
  | some task => rfl
  | none =>
      rcases hjobs with hjobs | ⟨rfl, hjobs⟩
      · rw [hjobs]
      · rw [hjobs]
        have hiff : j < w.jobs.length + 1 ↔ j < w.jobs.length := by omega
        simp only [hiff]

/-- A new task arrives, or is a timer that has run down. -/
private theorem turn_new (job : Job) (client : Bool)
    (hclient : ∀ req, job = .request req → client = true) (p : Option Nat)
    (g : Nat) : Desk.Turn .fresh p g
      (({ job, client, prog := job.handler } : Task).duty a) p g := by
  have hgone : Desk.Turn .fresh p g .over p g := .leave rfl rfl p g
  cases job with
  | request req =>
      obtain rfl := hclient req rfl
      cases req with
      | event ev =>
          simp only [Task.duty]
          split
          · exact hgone
          · exact .arrive _ _ _
      | stopWait ev =>
          simp only [Task.duty]
          split
          · exact hgone
          · exact .arrive _ _ _
      | prune => exact hgone
  | reap => exact hgone
  | grace b gen =>
      show Desk.Turn .fresh p g (if b ≠ a then .over else .due gen) p g
      split
      · exact hgone
      · exact .start _ _ _

private theorem desk_spawn {w : World} (hn : w.Numbered) (job : Job)
    (client : Bool) (timers : List (String × Nat))
    (hclient : ∀ req, job = .request req → client = true) :
    (w.desk a).Step
      ((({ w with daemon.graceTimers := timers } : World).spawn job client).desk
        a) w.jobs.length where
  turn := by
    have hfresh : (w.desk a).duty w.jobs.length = .fresh := by
      have hnone : w.tasks w.jobs.length = none := by
        cases ht : w.tasks w.jobs.length with
        | none => rfl
        | some task => exact absurd (hn.lt ht) (lt_irrefl _)
      simp only [desk, hnone, lt_irrefl, if_false]
    have hnew : ((({ w with daemon.graceTimers := timers } : World).spawn job
        client).desk a).duty w.jobs.length
        = ({ job, client, prog := job.handler } : Task).duty a := by
      simp only [desk, spawn, upd_same]
    rw [hfresh, hnew]
    exact turn_new job client hclient _ _
  others := by
    refine desk_others (fun j hj => upd_other _ _ hj) (.inr ⟨rfl, ?_⟩)
    exact List.length_append

/-- Every step is a turn at the desk. -/
theorem desk_step {w : World} (hn : w.Numbered) (hl : w.Left) (act : Act) :
    (w.desk a).Step ((w.step act).desk a) (w.subject act) := by
  have hstay : ∀ {w' : World} (k : Nat), w'.tasks = w.tasks →
      w'.jobs = w.jobs → w'.daemon.pendingClose = w.daemon.pendingClose →
      w'.daemon.closeGen = w.daemon.closeGen →
      (w.desk a).Step (w'.desk a) k := by
    intro w' k htasks hjobs hpending hgen
    have hsame : w'.desk a = w.desk a := by
      simp only [desk, htasks, hjobs, hpending, hgen]
    rw [hsame]
    exact ⟨.stay _ _ (Nat.le_refl _), fun _ _ => rfl⟩
  cases act with
  | receive req => exact desk_spawn hn _ _ w.daemon.graceTimers fun _ _ => rfl
  | reap =>
      exact desk_spawn hn _ _ w.daemon.graceTimers fun req h => by cases h
  | edit disk => exact hstay _ rfl rfl rfl rfl
  | grace i =>
      simp only [step, startGrace]
      split
      · exact desk_spawn hn _ _ _ fun req h => by cases h
      · exact hstay _ rfl rfl rfl rfl
  | lose k =>
      simp only [step, losePoll]
      split
      next ev started op f htask =>
        split
        · refine ⟨?_, desk_others (fun j hj => upd_other _ _ hj) (.inl rfl)⟩
          show Desk.Turn _ _ _ ((_ : World).desk a |>.duty k) _ _
          simp only [subject, desk, htask, upd_same]
          by_cases hb : ev.sessionId = a
          · simp only [Task.duty, hb, ne_eq, not_true, if_false, if_true]
            cases started with
            | true => exact .lose rfl _ _
            | false => exact .lose rfl _ _
          · simp only [Task.duty, ne_eq, hb, not_false_eq_true, if_true]
            exact .stay _ _ (Nat.le_refl _)
        · exact hstay _ rfl rfl rfl rfl
      · exact hstay _ rfl rfl rfl rfl
  | move k tick =>
      rcases w.step_cases (.move k tick) with
        ⟨k', task, op, f, tick', d, r, hmove, htask, hprog, -, hexec, heq⟩
        | ⟨k', tick', task, body, hmove, htask, hprog, heq⟩ | ⟨_, _, -, hstays⟩
      · obtain ⟨rfl, rfl⟩ := Act.move.inj hmove
        rw [heq]
        refine ⟨?_, desk_others (fun j hj => upd_other _ _ hj) (.inl rfl)⟩
        simp only [subject, desk, resumed, htask, upd_same]
        exact (task_turn (hl k task htask) hprog hexec).2
      · obtain ⟨rfl, rfl⟩ := Act.move.inj hmove
        rw [heq]
        refine ⟨?_, desk_others (fun j hj => upd_other _ _ hj) (.inl rfl)⟩
        obtain ⟨hunder, hknocks⟩ := duty_of_ret (a := a) (hl k task htask) hprog
        have hlt := hn.lt htask
        simp only [subject, desk, htask, upd_same, hlt, if_true]
        exact .leave hunder hknocks _ _
      · rw [hstays k tick rfl]
        exact ⟨.stay _ _ (Nat.le_refl _), fun _ _ => rfl⟩

theorem left_step {w : World} (hl : w.Left) (act : Act) :
    (w.step act).Left := by
  intro k task htask
  rcases step_tasks htask with hold | ⟨job, client, rfl, -, hclient, rfl⟩
    | ⟨old, op, f, tick, d, r, -, hold, hprog, hexec, -, rfl⟩
    | ⟨ev, started, op, f, -, -, -, rfl⟩
  · exact hl k task hold
  · exact left_new job client hclient
  · exact (task_turn (a := "") (hl k old hold) hprog hexec).1
  · exact .noticed started

end World

-- ====================================================== graceful actions

namespace World

/-- Every duty at the desk is of this kind. -/
def eachDuty (a : String) (w : World) (p : Duty → Bool) : Bool :=
  (List.range w.jobs.length).all fun j => p ((w.desk a).duty j)

/-- A newer poll of the session has taken the place of poll `k`. -/
def superseded (a : String) (w : World) (k : Nat) : Bool :=
  w.daemon.log.any fun o => match o with
    | .registered q b => b == a && decide (k < q)
    | _ => false

/-- The action keeps clear of the races of the grace close.

- No request of the session clears its pending close, and no poll of it
  is found lost, between the loss of a poll and its pending close.
- A poll that is found lost is the only one waiting and has not been
  superseded.
- When a grace timer takes the pending close, no request of the session
  has yet to clear it and no loss is on its way to one, and none is
  received until the timer has closed the session. -/
def graceful (a : String) (w : World) (act : Act) : Bool :=
  let k := w.subject act
  let now := (w.desk a).duty k
  let next := ((w.step act).desk a).duty k
  let settled := w.eachDuty a fun x => !x.underway
  (!now.knocks || decide (next = now) || settled)
    && (!(now.waits && decide (next = .noticed)) || (settled
      && ((List.range w.jobs.length).all fun j =>
        decide (j = k) || !((w.desk a).duty j).waits)
      && !w.superseded a k))
    && (!(next.closes && !now.closes)
      || (settled && w.eachDuty a fun x => !x.knocks))
    && (!(decide (now = .fresh) && next.knocks)
      || w.eachDuty a fun x => !x.closes)

private theorem of_eachDuty {w : World} (hn : w.Numbered) {p : Duty → Bool}
    (hfresh : p .fresh = true) (h : w.eachDuty a p = true) (j : Nat) :
    p ((w.desk a).duty j) = true := by
  by_cases hj : j < w.jobs.length
  · exact List.all_eq_true.1 h j (List.mem_range.2 hj)
  · have hnone : w.tasks j = none := by
      cases ht : w.tasks j with
      | none => rfl
      | some task => exact absurd (hn.lt ht) hj
    simp only [desk, hnone, hj, if_false]
    exact hfresh

theorem careful_of_graceful {w : World} (hn : w.Numbered) {act : Act}
    (h : w.graceful a act = true) :
    (w.desk a).Careful ((w.step act).desk a) (w.subject act) := by
  simp only [graceful, Bool.and_eq_true, Bool.or_eq_true, Bool.not_eq_true',
    decide_eq_true_eq] at h
  obtain ⟨⟨⟨hhear, hlose⟩, htake⟩, harrive⟩ := h
  have hsettled : w.eachDuty a (fun x => !x.underway) = true →
      (w.desk a).Settled := fun h j => by
    simpa using of_eachDuty hn rfl h j
  constructor
  · intro hknocks hne
    refine hsettled ?_
    rcases hhear with (hnot | hsame) | hs
    · rw [hknocks] at hnot
      cases hnot
    · exact absurd hsame hne
    · exact hs
  · intro hwaits hnoticed
    rcases hlose with hnot | ⟨⟨hs, hothers⟩, -⟩
    · rw [hwaits, hnoticed] at hnot
      simp at hnot
    · refine ⟨hsettled hs, fun j hj => ?_⟩
      by_cases hlt : j < w.jobs.length
      · have := List.all_eq_true.1 hothers j (List.mem_range.2 hlt)
        simpa [hj] using this
      · have hnone : w.tasks j = none := by
          cases ht : w.tasks j with
          | none => rfl
          | some task => exact absurd (hn.lt ht) hlt
        simp only [desk, hnone, hlt, if_false]
        rfl
  · intro hnext hnow
    rcases htake with hnot | ⟨hs, hquiet⟩
    · rw [hnext, hnow] at hnot
      simp at hnot
    · exact ⟨hsettled hs, fun j => by simpa using of_eachDuty hn rfl hquiet j⟩
  · intro hfresh hknocks j
    rcases harrive with hnot | hopen
    · rw [hfresh, hknocks] at hnot
      simp at hnot
    · simpa using of_eachDuty hn rfl hopen j

end World

-- ============================================================ whole runs

namespace World

/-- What holds throughout a run of graceful actions. -/
structure Watched (a : String) (w : World) : Prop where
  numbered : w.Numbered
  left : w.Left
  attended : (w.desk a).Attended

theorem watched_init (disk : Disk) : (init disk).Watched a where
  numbered := numbered_init disk
  left := left_init disk
  attended := by
    have hfresh : ∀ j, ((init disk).desk a).duty j = .fresh := fun j => rfl
    constructor
    · intro j g hj
      rw [hfresh] at hj
      simp at hj
    · intro i j hi
      rw [hfresh] at hi
      cases hi
    · intro g j hg
      cases hg
    · intro i j g hi
      rw [hfresh] at hi
      cases hi

/-- What turns keep holds after a run of graceful actions. -/
theorem Watched.run {P : World → Prop} {w : World}
    (hP : ∀ w act, w.Watched a → w.graceful a act = true →
      (w.desk a).Step ((w.step act).desk a) (w.subject act) →
      (w.desk a).Careful ((w.step act).desk a) (w.subject act) →
      P w → P (w.step act))
    {as : List Act} (hrun : Along step (fun w act => w.graceful a act = true) w as)
    (hw : w.Watched a) (h : P w) :
    (Lib.run step w as).Watched a ∧ P (Lib.run step w as) := by
  refine hrun.invariant (P := fun w => w.Watched a ∧ P w)
    (fun w act hact hwP => ?_) ⟨hw, h⟩
  obtain ⟨hw, hp⟩ := hwP
  have hstep := desk_step (a := a) hw.numbered hw.left act
  have hcare := careful_of_graceful hw.numbered hact
  exact ⟨⟨numbered_step hw.numbered act, left_step hw.left act,
    hw.attended.step hstep hcare⟩, hP w act hw hact hstep hcare hp⟩

/-- Poll `k` has been lost, or a newer one has taken its place. -/
def Abandoned (a : String) (w : World) (k : Nat) : Prop :=
  (∃ task, w.tasks k = some task ∧ task.client = false)
    ∨ w.superseded a k = true

/-- Only a poll that has filed its loss starts a grace timer. -/
theorem filed_of_about {w : World} (hn : w.Numbered) (hl : w.Left) {gen : Nat}
    (h : w.about k = some (.spawnGrace a gen)) :
    (w.desk a).duty k = .filed gen ∧ ∃ ev, ev.sessionId = a
      ∧ w.jobs[k]? = some (.request (.stopWait ev)) := by
  obtain ⟨task, f, htask, hprog⟩ := about_eq_some h
  have hleft := hl k task htask
  have hjob := hn k task htask
  obtain ⟨job, started, client, prog⟩ := task
  simp only at hprog hjob
  subst hprog
  have hcalm : ¬Calm (.call (.spawnGrace a gen) f) := fun hcalm => by
    cases hcalm.1
  cases job with
  | request req =>
      cases req with
      | event ev =>
          cases started with
          | true => exact absurd hleft.2 hcalm
          | false => cases hleft.2
      | stopWait ev =>
          cases client with
          | true =>
              cases started with
              | true => exact absurd hleft hcalm
              | false => cases hleft
          | false =>
              generalize hp : Prog.call (Op.spawnGrace a gen) f = prog at hleft
              cases hleft with
              | noticed parked => cases hp
              | drawn gen' parked => cases hp
              | filed gen' parked =>
                  cases hp
                  refine ⟨?_, ev, rfl, hjob⟩
                  simp only [desk, htask]
                  exact if_neg (not_not.2 rfl)
              | leaving hc =>
                  subst hp
                  exact absurd hc hcalm
      | prune => exact absurd hleft hcalm
  | reap => exact absurd hleft hcalm
  | grace b gen' => rcases hleft with h | h | h <;> cases h

/-- A grace timer about to close. -/
theorem closing_of_closes {w : World} (hn : w.Numbered) {gen : Nat}
    (hjob : w.jobs[k]? = some (.grace a gen))
    (h : w.closes a (.move k tick) = true) :
    (w.desk a).duty k = .closing gen := by
  unfold closes at h
  dsimp only at h
  split at h
  next x hab =>
    obtain ⟨task, f, htask, hprog⟩ := about_eq_some hab
    have hjob' := hn _ task htask
    rw [hjob] at hjob'
    obtain ⟨job, started, client, prog⟩ := task
    simp only [Option.some.injEq] at hprog hjob'
    subst hprog hjob'
    simp only [desk, htask]
    exact if_neg (not_not.2 rfl)
  · cases h

/-- A poll without its client is lost. -/
private theorem lost_of_client {w : World} (hn : w.Numbered) {task : Task}
    {ev : Event} (htask : w.tasks k = some task) (hclient : task.client = false)
    (hjob : w.jobs[k]? = some (.request (.stopWait ev)))
    (ha : ev.sessionId = a) : ((w.desk a).duty k).lost = true := by
  have hjob' := hn k task htask
  rw [hjob] at hjob'
  obtain ⟨job, started, client, prog⟩ := task
  simp only [Option.some.injEq] at hjob' hclient
  subst hjob' hclient
  simp only [desk, htask, Task.duty, ha, ne_eq, not_true, if_false,
    Bool.false_eq_true]
  split <;> rfl

private theorem superseded_step {w : World} (act : Act)
    (h : w.superseded a k = true) : (w.step act).superseded a k = true := by
  obtain ⟨obs, hlog⟩ := w.step_log act
  rw [superseded, ← hlog, List.any_append]
  exact Bool.or_eq_true_iff.2 (.inr h)

end World

section run

variable {disk : Disk} {as : List Act}

private theorem lost_run {w : World} {cs : List Act}
    (hrun : Along World.step (fun w act => w.graceful a act = true) w cs)
    (hw : w.Watched a) (h : ((w.desk a).duty k).lost = true) :
    (((run World.step w cs).desk a).duty k).lost = true := by
  refine (hw.run (P := fun w => ((w.desk a).duty k).lost = true)
    (fun w act _ _ hstep _ h => ?_) hrun h).2
  by_cases hk : k = w.subject act
  · rw [hk] at h ⊢
    exact hstep.turn.lost h
  · rw [hstep.others k hk]
    exact h

/-- A superseded poll is not found lost any more. -/
private theorem kept_run {w : World} {cs : List Act}
    (hrun : Along World.step (fun w act => w.graceful a act = true) w cs)
    (hw : w.Watched a) (hsuper : w.superseded a k = true)
    (h : ((w.desk a).duty k).underway = false
      ∧ ∀ g, (w.desk a).duty k ≠ .filed g) :
    ∀ g, ((run World.step w cs).desk a).duty k ≠ .filed g := by
  refine (hw.run (P := fun w => w.superseded a k = true
    ∧ ((w.desk a).duty k).underway = false ∧ ∀ g, (w.desk a).duty k ≠ .filed g)
    (fun w act _ hact hstep _ h => ?_) hrun ⟨hsuper, h⟩).2.2.2
  obtain ⟨hsuper, hunder, hfiled⟩ := h
  refine ⟨World.superseded_step act hsuper, ?_⟩
  by_cases hk : k = w.subject act
  · subst hk
    constructor
    · rw [Bool.eq_false_iff]
      intro hu
      rcases hstep.turn.underway hu with hu | ⟨hwaits, hnoticed⟩
      · rw [hunder] at hu
        cases hu
      · simp [World.graceful, hwaits, hnoticed, hsuper] at hact
    · intro g hg
      rcases hstep.turn.filed hg with hg | hg
      · exact hfiled g hg
      · rw [hg] at hunder
        cases hunder
  · rw [hstep.others k hk]
    exact ⟨hunder, hfiled⟩

/-- A prefix of such a run. -/
private theorem watched_after {bs cs : List Act} (has : as = bs ++ cs)
    (hrun : Along World.step (fun w act => w.graceful a act = true)
      (World.init disk) as) :
    (World.after disk bs).Watched a
      ∧ Along World.step (fun w act => w.graceful a act = true)
        (World.after disk bs) cs := by
  rw [has, along_append] at hrun
  exact ⟨((World.watched_init disk).run (P := fun _ => True)
    (fun _ _ _ _ _ _ _ => trivial) hrun.1 trivial).1, hrun.2⟩

private theorem after_append (bs cs : List Act) :
    World.after disk (bs ++ cs) = run World.step (World.after disk bs) cs :=
  run_append _ _ _

/-- A poll that has been lost or superseded, and starts a grace timer,
has been lost by then. -/
private theorem lost_of_abandoned {bs bs₁ bs₂ ds es : List Act} {gen : Nat}
    (hrun : Along World.step (fun w act => w.graceful a act = true)
      (World.init disk) bs)
    (hab : (World.after disk ds).about k = some (.spawnGrace a gen))
    (hds : bs = ds ++ es) (hbs : bs = bs₁ ++ bs₂)
    (h : (World.after disk bs₁).Abandoned a k) :
    (((World.after disk bs₁).desk a).duty k).lost = true := by
  obtain ⟨hw₁, hrest₁⟩ := watched_after hbs hrun
  obtain ⟨hwd, hrestd⟩ := watched_after hds hrun
  obtain ⟨hfiled, ev, hev, hjob⟩ :=
    World.filed_of_about hwd.numbered hwd.left hab
  rcases h with ⟨task, htask, hclient⟩ | hsuper
  · -- jobs keep their numbers
    have hlast : (World.after disk bs).jobs[k]?
        = some (.request (.stopWait ev)) := by
      rw [hds, after_append]
      obtain ⟨js, hjs⟩ := World.run_jobs (World.after disk ds) es
      rw [← hjs, List.getElem?_append_left (List.getElem?_eq_some_iff.1 hjob).1]
      exact hjob
    have hjob₁ : (World.after disk bs₁).jobs[k]?
        = some (.request (.stopWait ev)) := by
      have hlt := hw₁.numbered.lt htask
      rw [hbs, after_append] at hlast
      obtain ⟨js, hjs⟩ := World.run_jobs (World.after disk bs₁) bs₂
      rw [← hjs, List.getElem?_append_left hlt] at hlast
      exact hlast
    exact World.lost_of_client hw₁.numbered htask hclient hjob₁ hev
  · rcases List.append_eq_append_iff.1 (hds.symm.trans hbs) with
      ⟨xs, hxs, -⟩ | ⟨xs, hxs, hxs'⟩
    · -- it has filed its loss before
      subst hxs
      rw [after_append]
      refine lost_run ?_ hwd (by rw [hfiled]; rfl)
      rw [hds, List.append_assoc, List.append_cancel_left_eq] at hbs
      rw [hbs, along_append] at hrestd
      exact hrestd.1
    · -- it files its loss later, and is not found lost from here on
      rw [hxs', along_append] at hrest₁
      rw [Bool.eq_iff_iff]
      refine iff_of_true ?_ rfl
      by_contra hnot
      refine kept_run hrest₁.1 hw₁ hsuper ⟨?_, fun g hg => ?_⟩ gen ?_
      · rw [Bool.eq_false_iff]
        exact fun hu => hnot (Duty.lost_of_underway hu)
      · rw [hg] at hnot
        exact hnot rfl
      · rw [← after_append, ← hxs]
        exact hfiled

/-- Once a request has arrived after a poll was lost, the poll's grace
timer does not close. -/
private theorem late_run {bs bs₁ cs ds es : List Act} {gen : Nat}
    {req : Request}
    (hrun : Along World.step (fun w act => w.graceful a act = true)
      (World.init disk) bs)
    (hab : (World.after disk ds).about k = some (.spawnGrace a gen))
    (hds : bs = ds ++ es) (hbs : bs = bs₁ ++ .receive req :: cs)
    (hlost : (((World.after disk bs₁).desk a).duty k).lost = true)
    (hreq : req.concerns a = true) :
    ((World.after disk bs).desk a).Late gen
      (World.after disk bs₁).jobs.length := by
  obtain ⟨hw₁, hrest₁⟩ := watched_after hbs hrun
  obtain ⟨hwd, hrestd⟩ := watched_after hds hrun
  have hfiled := (World.filed_of_about hwd.numbered hwd.left hab).1
  obtain ⟨r, hr⟩ : ∃ r, (World.after disk bs₁).jobs.length = r := ⟨_, rfl⟩
  rw [hr]
  have hlate : ∀ {w : World} {xs : List Act},
      Along World.step (fun w act => w.graceful a act = true) w xs →
      w.Watched a → (w.desk a).Late gen r →
      ((run World.step w xs).desk a).Late gen r := fun hxs hw h =>
    (hw.run (P := fun w => (w.desk a).Late gen r)
      (fun w act _ _ hstep hcare h => h.step hstep hcare) hxs h).2
  -- the request arrives while no timer closes
  let w₂ := (World.after disk bs₁).step (.receive req)
  have hstep : ((World.after disk bs₁).desk a).Step (w₂.desk a) r :=
    hr ▸ World.desk_step hw₁.numbered hw₁.left (.receive req)
  have hcare : ((World.after disk bs₁).desk a).Careful (w₂.desk a) r :=
    hr ▸ World.careful_of_graceful hw₁.numbered hrest₁.1
  have hw₂ : w₂.Watched a := ⟨World.numbered_step hw₁.numbered _,
    World.left_step hw₁.left _, hw₁.attended.step hstep hcare⟩
  have hknocks : ((w₂.desk a).duty r).knocks = true := by
    have hduty : (w₂.desk a).duty r = Task.duty a
        { job := .request req, client := true
          prog := (Job.request req).handler } := by
      simp only [w₂, World.step, World.spawn, World.desk, hr, upd_same]
    rw [hduty]
    cases req with
    | event ev =>
        have hev : ev.sessionId = a := by simpa [Request.concerns] using hreq
        simp [Task.duty, hev, Duty.knocks]
    | stopWait ev =>
        have hev : ev.sessionId = a := by simpa [Request.concerns] using hreq
        simp [Task.duty, hev, Duty.knocks]
    | prune => cases hreq
  have hfresh : ((World.after disk bs₁).desk a).duty r = .fresh := by
    have hnone : (World.after disk bs₁).tasks r = none := by
      cases ht : (World.after disk bs₁).tasks r with
      | none => rfl
      | some task =>
          have := hw₁.numbered.lt ht
          omega
    simp only [World.desk, hnone, hr, lt_irrefl, if_false]
  have hopen : ∀ i, ((w₂.desk a).duty i).closes = false := by
    intro i
    by_cases hi : i = r
    · subst hi
      cases hd : (w₂.desk a).duty i <;> rw [hd] at hknocks <;> first
        | rfl
        | cases hknocks
    · rw [hstep.others i hi]
      exact hcare.arrive hfresh hknocks i
  have hafter₂ : World.after disk (bs₁ ++ [.receive req]) = w₂ :=
    after_append _ _
  have hrest₂ : Along World.step (fun w act => w.graceful a act = true) w₂ cs :=
    hrest₁.2
  have hbs₂ : bs = (bs₁ ++ [.receive req]) ++ cs := by
    rw [hbs, List.append_assoc]
    rfl
  rcases List.append_eq_append_iff.1 (hds.symm.trans hbs₂) with
    ⟨xs, hxs, -⟩ | ⟨xs, hxs, hxs'⟩
  · -- the timer's generation was drawn before
    have hgen : gen ≤ (w₂.desk a).gen := by
      rw [← hafter₂, hxs, after_append]
      refine (hwd.run (P := fun w => gen ≤ (w.desk a).gen)
        (fun w act _ _ hstep _ h => h.trans hstep.turn.gen_le) ?_
        (hwd.attended.gens k gen (.inr hfiled))).2
      rw [hds, hxs, List.append_assoc, List.append_cancel_left_eq] at hbs₂
      rw [hbs₂, along_append] at hrestd
      exact hrestd.1
    rw [hbs₂, after_append, hafter₂]
    exact hlate hrest₂ hw₂ (.knocks hgen hknocks hopen)
  · -- the poll has been lost, and files its loss later
    have hlost₂ : ((w₂.desk a).duty k).lost = true := by
      by_cases hk : k = r
      · rw [hk, hfresh] at hlost
        cases hlost
      · rw [hstep.others k hk]
        exact hlost
    rw [hxs', along_append] at hrest₂
    have houtlived := (hw₂.run (P := fun w => (w.desk a).Outlived k r)
      (fun w act hw _ hstep hcare h => h.step hw.attended hstep hcare)
      hrest₂.1 ⟨hlost₂, .inl ⟨hknocks, hopen⟩⟩).2
    rw [hds, after_append]
    refine hlate hrestd hwd ?_
    have hafterd : World.after disk ds = run World.step w₂ xs := by
      rw [hxs, after_append, hafter₂]
    rw [hafterd] at hfiled ⊢
    rw [hafterd] at hwd
    exact houtlived.late_of_filed hwd.attended hfiled

/-- A grace timer that closes a session finds no poll of it parked, and
no request of it has been received since the poll whose loss started
the timer was lost, or superseded. -/
theorem grace_closes_dead
    (hrun : Along World.step (fun w act => w.graceful a act = true)
      (World.init disk) as) :
    ∀ bs j tick cs gen, as = bs ++ .move j tick :: cs →
      (World.after disk bs).jobs[j]? = some (.grace a gen) →
      (World.after disk bs).closes a (.move j tick) = true →
      (∀ q ev prog, (World.after disk bs).tasks q
          = some ⟨.request (.stopWait ev), true, true, prog⟩ →
        ev.sessionId ≠ a)
      ∧ ∀ k ds tick' es, bs = ds ++ .move k tick' :: es →
        (World.after disk ds).about k = some (.spawnGrace a gen) →
        ∀ bs₁ bs₂, bs = bs₁ ++ bs₂ → (World.after disk bs₁).Abandoned a k →
          ∀ req, .receive req ∈ bs₂ → req.concerns a = false := by
  intro bs j tick cs gen has hjob hcloses
  have hw := (watched_after has hrun).1
  have hclosing := World.closing_of_closes hw.numbered hjob hcloses
  rw [has, along_append] at hrun
  refine ⟨fun q ev prog hq ha => ?_, ?_⟩
  · have hnot := hw.attended.closing j q gen hclosing
    have hheard : ((World.after disk bs).desk a).duty q = .heard true :=
      World.heard_iff.2 ⟨ev, prog, hq, ha⟩
    rw [hheard] at hnot
    cases hnot
  · intro k ds tick' es hds hab bs₁ bs₂ hbs habandoned req hreq
    rw [Bool.eq_false_iff]
    intro hconcerns
    have hlost := lost_of_abandoned hrun.1 hab hds hbs habandoned
    obtain ⟨xs, ys, rfl⟩ := List.append_of_mem hreq
    obtain ⟨hw₁, hrest⟩ := watched_after hbs hrun.1
    rw [along_append] at hrest
    have hlost' := lost_run hrest.1 hw₁ hlost
    rw [← after_append] at hlost'
    have hsplit : bs = bs₁ ++ xs ++ .receive req :: ys := by
      rw [hbs, List.append_assoc]
    exact (late_run hrun.1 hab hds hsplit hlost' hconcerns).not_closing j
      hclosing

end run

-- ----------------------------------------------------- two polls, one lost

private def forkless : Disk := .holding [] {} none

/-- A poll is lost while parked, and its grace timer takes the pending
close. -/
private def lostRun : List Act :=
  .stop "s" :: Act.moves 13 0 10 ++ .lose 0 :: Act.moves 5 0 20
    ++ .grace 0 :: Act.moves 1 1 80

/-- A second poll has parked by the time the first one's connection is
found closed. -/
private def replacedRun : List Act :=
  .stop "s" :: Act.moves 13 0 10 ++ .stop "s" :: Act.moves 13 1 15
    ++ .lose 0 :: Act.moves 5 0 20 ++ .grace 0 :: Act.moves 1 2 80

private def Job.isGrace (b : String) (gen : Nat) : Job → Bool
  | .grace b' gen' => b' == b && gen' == gen
  | _ => false

private theorem eq_grace {o : Option Job} {b : String} {gen : Nat}
    (h : o.any (Job.isGrace b gen) = true) : o = some (.grace b gen) := by
  cases o with
  | none => cases h
  | some job =>
      rw [Option.any_some] at h
      cases job with
      | grace b' gen' =>
          simp only [Job.isGrace, Bool.and_eq_true, beq_iff_eq] at h
          rw [h.1, h.2]
      | _ => cases h

/-- The timer closes the session: the poll's client is gone, and nothing
was received since. -/
theorem grace_closes_dead_lost :
    let w := World.after forkless lostRun
    w.closes "s" (.move 1 { now := 80 }) = true
      ∧ (∀ q ev prog,
          w.tasks q = some ⟨.request (.stopWait ev), true, true, prog⟩ →
        ev.sessionId ≠ "s")
      ∧ ∀ k ds tick' es, lostRun = ds ++ .move k tick' :: es →
        (World.after forkless ds).about k = some (.spawnGrace "s" 1) →
        ∀ bs₁ bs₂, lostRun = bs₁ ++ bs₂ →
          (World.after forkless bs₁).Abandoned "s" k →
          ∀ req, .receive req ∈ bs₂ → req.concerns "s" = false := by
  intro w
  have hcloses : w.closes "s" (.move 1 { now := 80 }) = true := by
    decide +kernel
  refine ⟨hcloses, ?_⟩
  have hrun : Along World.step (fun w act => w.graceful "s" act = true)
      (World.init forkless) (lostRun ++ [.move 1 { now := 80 }]) := by
    decide +kernel
  exact grace_closes_dead hrun lostRun 1 { now := 80 } [] 1 rfl
    (eq_grace (by decide +kernel)) hcloses

/-- The first poll's grace timer closes the session, with the second
parked. -/
theorem grace_closes_parked :
    ¬∀ (disk : Disk) (a : String) (as bs : List Act) (j : Nat) (tick : Tick)
        (cs : List Act) (gen : Nat), as = bs ++ .move j tick :: cs →
      (World.after disk bs).jobs[j]? = some (.grace a gen) →
      (World.after disk bs).closes a (.move j tick) = true →
      (∀ q ev prog, (World.after disk bs).tasks q
          = some ⟨.request (.stopWait ev), true, true, prog⟩ →
        ev.sessionId ≠ a)
      ∧ ∀ k ds tick' es, bs = ds ++ .move k tick' :: es →
        (World.after disk ds).about k = some (.spawnGrace a gen) →
        ∀ bs₁ bs₂, bs = bs₁ ++ bs₂ → (World.after disk bs₁).Abandoned a k →
          ∀ req, .receive req ∈ bs₂ → req.concerns a = false := by
  intro h
  obtain ⟨hparked, -⟩ := h forkless "s" (replacedRun ++ [.move 2 { now := 80 }])
    replacedRun 2 { now := 80 } [] 1 rfl (eq_grace (by decide +kernel))
    (by decide +kernel)
  have hsecond : ((World.after forkless replacedRun).desk "s").duty 1
      = .heard true := by
    decide +kernel
  obtain ⟨ev, prog, htask, hev⟩ := World.heard_iff.1 hsecond
  exact hparked 1 ev prog htask hev

end Autofork
