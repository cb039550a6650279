/-
Sessions do not influence each other.

Two worlds are `Alike` for session `a` when their daemons are, and the
tasks that concern `a`, taken in order, go along with one another. They
stay so while nothing that concerns `a` happens in either
(`Alike.frame`), and when each takes a step that looks the same to `a`
(`seen_step`). By the unwinding rule, runs that look the same to `a`
leave its rows and its answers the same (`sessions_apart`).
-/
import Autofork.Lib.Unwinding
import Autofork.Proofs.Seen

namespace Autofork

open Lib

-- ========================================================= side by side

/-- Jobs that stand for one another in two worlds. -/
inductive Job.Alike (a : String) (G : Gens) : Job → Job → Prop
  | request (req : Request) : Job.Alike a G (.request req) (.request req)
  | reap : Job.Alike a G .reap .reap
  | grace {gen gen' : Nat} (hgen : G gen gen') :
      Job.Alike a G (.grace a gen) (.grace a gen')

/-- What is left of two tasks for the same job goes along with one
another. Only what a prune reports may differ. -/
structure Task.Alike (a : String) (G : Gens) (job : Job) (task task' : Task) :
    Prop where
  started : task.started = task'.started
  client : task.client = task'.client
  prog : Alongside a (fun body body' => job ≠ .request .prune → body = body') G
    task.prog task'.prog

/-- Two tasks for the same job, where they still are; of reapers only
counts where they are with `a`. -/
def TasksAlike (a : String) (G : Gens) (job : Job) (o o' : Option Task) :
    Prop :=
  match job with
  | .reap => ∃ stage, Reaping a stage o ∧ Reaping a stage o'
  | _ => Option.Rel (Task.Alike a G job) o o'

/-- Two worlds as session `a` sees them. -/
structure World.Alike (a : String) (G : Gens) (w w' : World) : Prop where
  daemon : Daemon.Alike a G (Abreast (Job.concerns a) w.jobs w'.jobs)
    w.daemon w'.daemon
  count : w.jobs.countP (Job.concerns a) = w'.jobs.countP (Job.concerns a)
  tasks : ∀ k k', Abreast (Job.concerns a) w.jobs w'.jobs k k' →
    ∃ job job', w.jobs[k]? = some job ∧ w'.jobs[k']? = some job'
      ∧ job.Alike a G job' ∧ TasksAlike a G job (w.tasks k) (w'.tasks k')
  answers : w.answersTo a = w'.answersTo a

section alike

variable {a : String} {G G' : Gens} {job job' : Job}

theorem Job.Alike.owner (h : job.Alike a G job') : job.owner = job'.owner := by
  cases h <;> rfl

theorem Job.Alike.grow (hG : G ≤ G') (h : job.Alike a G job') :
    job.Alike a G' job' := by
  cases h with
  | request req => exact .request req
  | reap => exact .reap
  | grace hgen => exact .grace (hG _ _ hgen)

theorem tasksAlike_of_ne (hreap : job ≠ .reap) {o o' : Option Task} :
    TasksAlike a G job o o' ↔ Option.Rel (Task.Alike a G job) o o' := by
  cases job with
  | reap => exact absurd rfl hreap
  | request req => exact Iff.rfl
  | grace sessionId gen => exact Iff.rfl

theorem TasksAlike.grow (hG : G ≤ G') {o o' : Option Task}
    (h : TasksAlike a G job o o') : TasksAlike a G' job o o' := by
  by_cases hreap : job = .reap
  · subst hreap
    exact h
  · rw [tasksAlike_of_ne hreap] at h ⊢
    exact rel_imp (fun _ _ ht => { ht with prog := ht.prog.grow hG }) h

/-- A task that is not a reaper's is in both worlds, or in neither. -/
theorem TasksAlike.cases {o o' : Option Task}
    (h : TasksAlike a G job o o') (hreap : job ≠ .reap) :
    (o = none ∧ o' = none)
      ∨ ∃ task task', o = some task ∧ o' = some task'
        ∧ task.Alike a G job task' := by
  rw [tasksAlike_of_ne hreap] at h
  cases h with
  | none => exact .inl ⟨rfl, rfl⟩
  | some h => exact .inr ⟨_, _, rfl, rfl, h⟩

end alike

namespace World

variable {a : String} {G G' : Gens} {w w' : World} {k k' : Nat}

-- ======================================================= nothing happens

/-- Jobs that concern `a` stand abreast as before. -/
private theorem Frame.abreast {w₁ w₁' : World} (hf : Frame a w w₁)
    (hf' : Frame a w' w₁') : Abreast (Job.concerns a) w₁.jobs w₁'.jobs
      = Abreast (Job.concerns a) w.jobs w'.jobs := by
  funext k k'
  apply propext
  rcases hf.jobs with hjobs | ⟨job, hjob, hjobs⟩ <;>
    rcases hf'.jobs with hjobs' | ⟨job', hjob', hjobs'⟩ <;> rw [hjobs, hjobs']
  · rw [abreast_append_right hjob']
  · rw [abreast_append_left hjob]
  · rw [abreast_append_left hjob, abreast_append_right hjob']

private theorem Frame.count {w₁ : World} (hf : Frame a w w₁) :
    w₁.jobs.countP (Job.concerns a) = w.jobs.countP (Job.concerns a) := by
  rcases hf.jobs with hjobs | ⟨job, hjob, hjobs⟩
  · rw [hjobs]
  · rw [hjobs, List.countP_append]
    simp [hjob]

private theorem Frame.job {w₁ : World} (hf : Frame a w w₁) {job : Job}
    (h : w.jobs[k]? = some job) : w₁.jobs[k]? = some job := by
  rcases hf.jobs with hjobs | ⟨job, -, hjobs⟩
  · rw [hjobs, h]
  · rw [hjobs, List.getElem?_append_left (List.getElem?_eq_some_iff.1 h).1, h]

private theorem Frame.task {w₁ : World} (hf : Frame a w w₁)
    (hk : Marked (Job.concerns a) w.jobs k) :
    (w.jobs[k]? ≠ some .reap → w₁.tasks k = w.tasks k)
      ∧ ∀ stage, Reaping a stage (w.tasks k) → Reaping a stage (w₁.tasks k) := by
  rcases hf.tasks k hk with htask | ⟨hreap, hstage⟩
  · rw [htask]
    exact ⟨fun _ => rfl, fun _ hs => hs⟩
  · exact ⟨fun h => absurd hreap h, hstage⟩

/-- Worlds stay alike while nothing that concerns `a` happens in
either. -/
theorem Alike.frame {w₁ w₁' : World} (h : w.Alike a G w')
    (hf : Frame a w w₁) (hf' : Frame a w' w₁') : w₁.Alike a G w₁' := by
  have habreast := hf.abreast hf'
  refine ⟨habreast ▸ h.daemon.frame hf.daemon hf'.daemon fun k k' hk =>
    ⟨hk.1, hk.2.1⟩, ?_, ?_, ?_⟩
  · rw [hf.count, hf'.count, h.count]
  · intro k k' hk
    rw [habreast] at hk
    obtain ⟨job, job', hjob, hjob', halike, htasks⟩ := h.tasks k k' hk
    refine ⟨job, job', hf.job hjob, hf'.job hjob', halike, ?_⟩
    obtain ⟨hsame, hstage⟩ := hf.task hk.1
    obtain ⟨hsame', hstage'⟩ := hf'.task hk.2.1
    rw [hjob, ne_eq, Option.some.injEq] at hsame
    rw [hjob', ne_eq, Option.some.injEq] at hsame'
    cases halike with
    | reap =>
        obtain ⟨stage, hs, hs'⟩ := htasks
        exact ⟨stage, hstage stage hs, hstage' stage hs'⟩
    | request req =>
        rw [hsame (by simp), hsame' (by simp)]
        exact htasks
    | grace hgen =>
        rw [hsame (by simp), hsame' (by simp)]
        exact htasks
  · rw [hf.answers, hf'.answers, h.answers]

/-- Worlds that have just begun. -/
theorem alike_init (a : String) (disk disk' : Disk) :
    (init disk).Alike a (fun _ _ => False) (init disk') where
  daemon := ⟨.refl a _, .none, fun _ _ _ => rfl, rfl, rfl, .none, .nil, rfl,
    ⟨fun _ _ _ h => h.elim, fun _ _ _ h => h.elim⟩, fun _ _ h => h.elim⟩
  count := rfl
  tasks k k' hk := absurd hk.1.lt (by simp [init])
  answers := rfl

-- ====================================================== jobs that begin

/-- The same job, started in two worlds. -/
theorem Alike.spawn (h : w.Alike a G w') (ht : w.Tidy) (ht' : w'.Tidy)
    {job job' : Job} (hjob : job.Alike a G job')
    (hmine : job.concerns a = true) (client : Bool) :
    (w.spawn job client).Alike a G (w'.spawn job' client) := by
  have hmine' : job'.concerns a = true := by
    rw [Job.concerns, ← hjob.owner]
    exact hmine
  have habreast : ∀ k k', Abreast (Job.concerns a) (w.jobs ++ [job])
      (w'.jobs ++ [job']) k k' ↔ Abreast (Job.concerns a) w.jobs w'.jobs k k'
        ∨ (k = w.jobs.length ∧ k' = w'.jobs.length) :=
    fun _ _ => abreast_append hmine hmine' h.count
  refine ⟨?_, ?_, ?_, ?_⟩
  · refine { h.daemon with
      waits := rel_imp (fun k k' hk => (habreast k k').2 (.inl hk)) h.daemon.waits
      signalled := fun k k' hk => ?_ }
    rcases (habreast k k').1 hk with hk | ⟨rfl, rfl⟩
    · exact h.daemon.signalled k k' hk
    · -- nobody has cancelled a task that has only now got its number
      have hfresh : ∀ {w : World}, w.Tidy →
          w.daemon.signalled w.jobs.length = false := by
        intro w ht
        cases hs : w.daemon.signalled w.jobs.length with
        | false => rfl
        | true => exact absurd (ht.signalled _ hs) (Nat.lt_irrefl _)
      exact (hfresh ht).trans (hfresh ht').symm
  · show List.countP _ (w.jobs ++ [job]) = List.countP _ (w'.jobs ++ [job'])
    rw [List.countP_append, List.countP_append, h.count]
    simp [hmine, hmine']
  · intro k k' hk
    rcases (habreast k k').1 hk with hk | ⟨rfl, rfl⟩
    · obtain ⟨j, j', hj, hj', halike, htasks⟩ := h.tasks k k' hk
      refine ⟨j, j', ?_, ?_, halike, ?_⟩
      · exact (List.getElem?_append_left hk.1.lt).trans hj
      · exact (List.getElem?_append_left hk.2.1.lt).trans hj'
      · simpa only [World.spawn, upd_other _ _ hk.1.lt.ne,
          upd_other _ _ hk.2.1.lt.ne] using htasks
    · refine ⟨job, job', by simp [World.spawn], by simp [World.spawn], hjob, ?_⟩
      simp only [World.spawn, upd_same]
      cases hjob with
      | reap => exact ⟨none, .inl ⟨rfl, rfl⟩, .inl ⟨rfl, rfl⟩⟩
      | grace hgen =>
          exact .some ⟨rfl, rfl,
            (graceClose_alongside hgen).mono fun _ _ hb _ => hb⟩
      | request req =>
          refine .some ⟨rfl, rfl, ?_⟩
          cases req with
          | prune => exact handlePrune_alongside.mono fun _ _ _ hb => absurd rfl hb
          | event ev =>
              have ha : ev.sessionId = a := by
                simpa [Job.concerns, Job.owner] using hmine
              subst ha
              exact (within_handleEvent ev).alongside.mono fun _ _ hb _ => hb
          | stopWait ev =>
              have ha : ev.sessionId = a := by
                simpa [Job.concerns, Job.owner] using hmine
              subst ha
              exact (handleStopWait_alongside ev).mono fun _ _ hb _ => hb
  · exact (ht.answersIn_append job).trans
      (h.answers.trans (ht'.answersIn_append job').symm)

/-- Two grace timers of the same rank run down. -/
private theorem Alike.startGrace (h : w.Alike a G w') (ht : w.Tidy)
    (ht' : w'.Tidy) {i i' gen gen' : Nat}
    (hi : w.daemon.graceTimers[i]? = some (a, gen))
    (hi' : w'.daemon.graceTimers[i']? = some (a, gen'))
    (hrank : rank (fun x => x.1 == a) w.daemon.graceTimers i
      = rank (fun x => x.1 == a) w'.daemon.graceTimers i') :
    Alike a G (w.startGrace i) (w'.startGrace i') := by
  have hmarked : Marked (fun x : String × Nat => x.1 == a)
      w.daemon.graceTimers i := ⟨_, hi, beq_self_eq_true a⟩
  have hmarked' : Marked (fun x : String × Nat => x.1 == a)
      w'.daemon.graceTimers i' := ⟨_, hi', beq_self_eq_true a⟩
  have hgen : G gen gen' := by
    have hx := hmarked.getElem?_filter.trans hi
    have hx' := hmarked'.getElem?_filter.trans hi'
    rw [← hrank] at hx'
    exact forall₂_getElem? h.daemon.timers hx hx'
  have htimers : Alike a G
      { w with daemon.graceTimers := w.daemon.graceTimers.eraseIdx i }
      { w' with daemon.graceTimers := w'.daemon.graceTimers.eraseIdx i' } := by
    refine ⟨{ h.daemon with timers := ?_ }, h.count, h.tasks, h.answers⟩
    dsimp only
    rw [hmarked.filter_eraseIdx, hmarked'.filter_eraseIdx, hrank]
    exact forall₂_eraseIdx h.daemon.timers _
  simp only [World.startGrace, hi, hi']
  exact htimers.spawn
    ⟨ht.numbered, ht.keeps, ht.waits, ht.signalled, ht.answered⟩
    ⟨ht'.numbered, ht'.keeps, ht'.waits, ht'.signalled, ht'.answered⟩
    (.grace hgen) (by simp [Job.concerns, Job.owner]) false

-- ======================================================== tasks in pairs

/-- A pair of tasks goes on, and with it the daemons. -/
private theorem Alike.update (h : w.Alike a G w')
    (hk : Abreast (Job.concerns a) w.jobs w'.jobs k k') (hG : G ≤ G')
    {d d' : Daemon} {o o' : Option Task}
    (hd : Daemon.Alike a G' (Abreast (Job.concerns a) w.jobs w'.jobs) d d')
    (htasks : ∀ job, w.jobs[k]? = some job → TasksAlike a G' job o o')
    (hanswers : answersIn a w.jobs d.log = answersIn a w'.jobs d'.log) :
    Alike a G' { w with daemon := d, tasks := upd w.tasks k o }
      { w' with daemon := d', tasks := upd w'.tasks k' o' } := by
  refine ⟨hd, h.count, fun j j' hj => ?_, hanswers⟩
  obtain ⟨job, job', hjob, hjob', halike, hold⟩ := h.tasks j j' hj
  refine ⟨job, job', hjob, hjob', halike.grow hG, ?_⟩
  have hbi := abreast_biUnique (Job.concerns a) w.jobs w'.jobs
  by_cases heq : j = k
  · subst heq
    obtain rfl := hbi.2 hj hk
    dsimp only
    rw [upd_same, upd_same]
    exact htasks job hjob
  · have heq' : j' ≠ k' := by
      rintro rfl
      exact heq (hbi.1 hj hk)
    dsimp only
    rw [upd_other _ _ heq, upd_other _ _ heq']
    exact hold.grow hG

/-- Two tasks for the same job return. -/
private theorem Alike.ret (h : w.Alike a G w')
    (hk : Abreast (Job.concerns a) w.jobs w'.jobs k k') {job : Job}
    (hjob : w.jobs[k]? = some job) (hreap : job ≠ .reap) {task task' : Task}
    {body body' : ResponseBody} (ht : w.tasks k = some task)
    (ht' : w'.tasks k' = some task') (hprog : task.prog = .ret body)
    (hprog' : task'.prog = .ret body') (hclient : task.client = task'.client)
    (hbody : job ≠ .request .prune → body = body') (tick : Tick) :
    Alike a G (w.step (.move k tick)) (w'.step (.move k' tick)) := by
  rw [move_ret ht hprog, move_ret ht' hprog', ← hclient]
  refine h.update hk le_rfl (h.daemon.of_store h.daemon.slice rfl rfl) ?_ ?_
  · intro j hj
    rw [hjob, Option.some.injEq] at hj
    subst hj
    exact (tasksAlike_of_ne hreap).2 .none
  · have hanswers : answersIn a w.jobs w.daemon.log
        = answersIn a w'.jobs w'.daemon.log := h.answers
    obtain ⟨j, job', hj, hjob', halike, -⟩ := h.tasks k k' hk
    rw [hjob, Option.some.injEq] at hj
    subst hj
    dsimp only
    split
    · rw [answersIn_cons, answersIn_cons, hanswers, hjob, hjob',
        Option.bind_some, Option.bind_some, ← halike.owner, hk.2.2]
      by_cases ha : job.owner = some a
      · have hreq : job ≠ .request .prune := by
          rintro rfl
          cases ha
        rw [hbody hreq]
      · rw [if_neg ha, if_neg ha]
    · exact hanswers

/-- Two tasks for the same job move, and it is not a reaper's. -/
private theorem Alike.move (h : w.Alike a G w')
    (hcfg : ∀ root, (w.daemon.disk.cfgFor root).tagThrottles = [])
    (hk : Abreast (Job.concerns a) w.jobs w'.jobs k k')
    (hread : w.reading a k = w'.reading a k')
    (hreap : w.jobs[k]? ≠ some .reap) (tick : Tick) :
    ∃ G', Alike a G' (w.step (.move k tick)) (w'.step (.move k' tick)) := by
  obtain ⟨job, job', hjob, -, -, htasks⟩ := h.tasks k k' hk
  rw [hjob, ne_eq, Option.some.injEq] at hreap
  rcases htasks.cases hreap with ⟨ht, ht'⟩ | ⟨task, task', ht, ht', halike⟩
  · rw [move_absent ht, move_absent ht']
    exact ⟨G, h⟩
  · have hprogs := halike.prog
    cases hprog : task.prog with
    | ret body =>
        rw [hprog] at hprogs
        obtain ⟨body', hprog', hbody⟩ := hprogs
        exact ⟨G, h.ret hk hjob hreap ht ht' hprog hprog' halike.client hbody tick⟩
    | call op f =>
        rw [hprog] at hprogs
        obtain ⟨op', f', S, hprog', htwin, hgo⟩ := hprogs
        have hsame : w.daemon.reading a op = w'.daemon.reading a op' := by
          simpa only [reading, about_of_prog ht hprog,
            about_of_prog ht' hprog'] using hread
        rcases exec_twins h.daemon (abreast_biUnique _ _ _) hk htwin hsame hcfg
            tick with
          ⟨hex, hex'⟩ | ⟨d, r, d', r', G', hex, hex', hG, hr, hd⟩
        · rw [move_stuck ht hprog hex, move_stuck ht' hprog' hex']
          exact ⟨G, h⟩
        · rw [move_call ht hprog hex, move_call ht' hprog' hex']
          refine ⟨G', h.update hk hG hd (fun j hj => ?_) ?_⟩
          · rw [hjob, Option.some.injEq] at hj
            subst hj
            rw [tasksAlike_of_ne hreap]
            exact .some ⟨rfl, halike.client, hgo G' hG r r' hr⟩
          · rw [exec_answers _ hex, exec_answers _ hex']
            exact h.answers

/-- A connection that is no poll's is not lost. -/
private theorem losePoll_eq_self (ht : w.Tidy)
    (h : ∀ ev, w.jobs[k]? ≠ some (.request (.stopWait ev))) :
    w.losePoll k = w := by
  unfold losePoll
  split
  next ev started op f hold => exact absurd (ht.numbered k _ hold) (h ev)
  next => rfl

/-- Two connections drop. -/
private theorem Alike.lose (h : w.Alike a G w') (ht : w.Tidy) (ht' : w'.Tidy)
    (hk : Abreast (Job.concerns a) w.jobs w'.jobs k k') :
    Alike a G (w.losePoll k) (w'.losePoll k') := by
  obtain ⟨job, job', hjob, hjob', halike, htasks⟩ := h.tasks k k' hk
  by_cases hpoll : ∃ ev, job = .request (.stopWait ev)
  · obtain ⟨ev, rfl⟩ := hpoll
    cases halike
    have ha : ev.sessionId = a := by
      obtain ⟨job, hj, hmine⟩ := hk.1
      rw [hjob, Option.some.injEq] at hj
      subst hj
      simpa [Job.concerns, Job.owner] using hmine
    rcases htasks.cases (by simp) with
      ⟨hold, hold'⟩ | ⟨task, task', hold, hold', hsame⟩
    · simpa only [losePoll, hold, hold'] using h
    · have hj := ht.numbered k _ hold
      have hj' := ht'.numbered k' _ hold'
      rw [hjob, Option.some.injEq] at hj
      rw [hjob', Option.some.injEq] at hj'
      obtain ⟨j, started, client, prog⟩ := task
      obtain ⟨j', started', client', prog'⟩ := task'
      obtain ⟨hstarted, hclient, hprogs⟩ := hsame
      simp only at hj hj' hstarted hclient hprogs
      subst hj hj' hstarted hclient
      cases client with
      | false => simpa only [losePoll, hold, hold'] using h
      | true =>
          cases prog with
          | ret body =>
              obtain ⟨body', rfl, -⟩ := hprogs
              simpa only [losePoll, hold, hold'] using h
          | call op f =>
              obtain ⟨op', f', S, rfl, htwin, -⟩ := hprogs
              simp only [losePoll, hold, hold', ← htwin.awaits]
              split
              · refine h.update hk le_rfl h.daemon (fun job hj => ?_) h.answers
                rw [hjob, Option.some.injEq] at hj
                subst hj ha
                exact .some ⟨rfl, rfl,
                  (onPollLost_alongside started).mono fun _ _ hb _ => hb⟩
              · exact h
  · have hself : w.losePoll k = w := losePoll_eq_self ht fun ev heq =>
      hpoll ⟨ev, Option.some.inj (hjob.symm.trans heq)⟩
    have hself' : w'.losePoll k' = w' := by
      refine losePoll_eq_self ht' fun ev heq => ?_
      obtain rfl := Option.some.inj (hjob'.symm.trans heq)
      cases halike
      exact hpoll ⟨ev, rfl⟩
    rw [hself, hself']
    exact h

-- =============================================================== reapers

/-- A reaper at work for `a` makes its list, or closes `a` next. -/
private theorem reaper_at_work {stage : Option Bool}
    (hjob : w.jobs[k]? = some .reap) (hstage : Reaping a stage (w.tasks k))
    (hworks : w.worksFor a k = true) :
    ∃ task, w.tasks k = some task
      ∧ ((stage = none ∧ task.prog = sessionReaper)
        ∨ ∃ ids, (a :: ids).Nodup ∧ stage = some true
          ∧ task.prog = closeAll (a :: ids)) := by
  cases ht : w.tasks k with
  | none => simp [worksFor, hjob, about, ht] at hworks
  | some task =>
      rw [ht] at hstage
      refine ⟨task, rfl, ?_⟩
      rcases hstage with ⟨hprog, rfl⟩ | ⟨ids, hnodup, hprog, rfl⟩
      · exact .inl ⟨rfl, hprog⟩
      · cases ids with
        | nil =>
            have hab : w.about k = none := by
              obtain ⟨job, started, client, prog⟩ := task
              simp only at hprog
              subst hprog
              simp [about, ht, closeAll]
            simp [worksFor, hjob, hab] at hworks
        | cons b ids =>
            have hab : w.about k = some (.write (.close b)) :=
              about_of_prog ht hprog
            obtain rfl : b = a := by simpa [worksFor, hjob, hab] using hworks
            exact .inr ⟨ids, hnodup, by simp, hprog⟩

/-- Two reapers at work for `a`. -/
private theorem Alike.reap (h : w.Alike a G w')
    (hk : Abreast (Job.concerns a) w.jobs w'.jobs k k')
    (hread : w.reading a k = w'.reading a k')
    (hreap : w.jobs[k]? = some .reap) (hworks : w.worksFor a k = true)
    (hworks' : w'.worksFor a k' = true) (tick : Tick) :
    Alike a G (w.step (.move k tick)) (w'.step (.move k' tick)) := by
  obtain ⟨job, job', hjob, hjob', halike, htasks⟩ := h.tasks k k' hk
  rw [hreap, Option.some.injEq] at hjob
  subst hjob
  cases halike
  obtain ⟨stage, hs, hs'⟩ := htasks
  obtain ⟨task, ht, hstage⟩ := reaper_at_work hreap hs hworks
  obtain ⟨task', ht', hstage'⟩ := reaper_at_work hjob' hs' hworks'
  have hupdate : ∀ {d d' : Daemon} {ids ids' : List String},
      Daemon.Alike a G (Abreast (Job.concerns a) w.jobs w'.jobs) d d' →
      ids.Nodup → ids'.Nodup → (a ∈ ids ↔ a ∈ ids') →
      answersIn a w.jobs d.log = answersIn a w'.jobs d'.log →
      Alike a G (w.resumed k task d (closeAll ids))
        (w'.resumed k' task' d' (closeAll ids')) := by
    intro d d' ids ids' hd hnodup hnodup' hids hanswers
    refine h.update hk le_rfl hd (fun job hjob => ?_) hanswers
    rw [hreap, Option.some.injEq] at hjob
    subst hjob
    refine ⟨some (decide (a ∈ ids)), .inr ⟨ids, hnodup, rfl, rfl⟩,
      .inr ⟨ids', hnodup', rfl, ?_⟩⟩
    rw [decide_eq_decide.2 hids]
  rcases hstage with ⟨rfl, hprog⟩ | ⟨ids, hnodup, rfl, hprog⟩
  · rcases hstage' with ⟨-, hprog'⟩ | ⟨_, _, hno, -⟩
    · -- both make their lists
      have hsettings : w.daemon.settings a = w'.daemon.settings a := by
        have hab : w.about k = some .timedOut := about_of_prog ht hprog
        have hab' : w'.about k' = some .timedOut := about_of_prog ht' hprog'
        simpa [reading, hab, hab', Daemon.reading] using hread
      have hnodup : ∀ d : Daemon, ((d.store.listOpenSessions.filter
          (isTimedOut d · tick.now)).map SessionRow.sessionId).Nodup := fun d =>
        (List.Sublist.map _ List.filter_sublist).nodup
          (nodup_listOpenSessions d.store)
      rw [move_call ht hprog rfl, move_call ht' hprog' rfl]
      exact hupdate h.daemon (hnodup _) (hnodup _)
        (timedOut_congr h.daemon.slice hsettings tick.now) h.answers
    · cases hno
  · rcases hstage' with ⟨hno, -⟩ | ⟨ids', hnodup', -, hprog'⟩
    · cases hno
    · -- both close `a`
      rw [move_call ht hprog rfl, move_call ht' hprog' rfl]
      refine hupdate (h.daemon.of_store (h.daemon.slice.closeSession a) rfl rfl)
        hnodup.of_cons hnodup'.of_cons ?_ h.answers
      exact iff_of_false (List.nodup_cons.1 hnodup).1 (List.nodup_cons.1 hnodup').1

-- ===================================================== over whole runs

/-- Steps that look the same. -/
theorem seen_step {act act' : Act} {v : Seen} (h : w.Alike a G w')
    (ht : w.Tidy) (ht' : w'.Tidy)
    (hcfg : ∀ root, (w.daemon.disk.cfgFor root).tagThrottles = [])
    (hv : w.view a act = some v) (hv' : w'.view a act' = some v) :
    ∃ G', Alike a G' (w.step act) (w'.step act') := by
  have hcases := view_cases hv
  have hcases' := view_cases hv'
  cases v with
  | receive req =>
      obtain ⟨rfl, hreq⟩ := hcases
      obtain ⟨rfl, -⟩ := hcases'
      exact ⟨G, h.spawn ht ht' (.request req) hreq true⟩
  | reap =>
      have hact : act = .reap := hcases
      have hact' : act' = .reap := hcases'
      subst hact hact'
      exact ⟨G, h.spawn ht ht' .reap rfl false⟩
  | grace i =>
      obtain ⟨j, gen, rfl, hj, hrank⟩ := hcases
      obtain ⟨j', gen', rfl, hj', hrank'⟩ := hcases'
      exact ⟨G, h.startGrace ht ht' hj hj' (hrank.trans hrank'.symm)⟩
  | lose i =>
      obtain ⟨k, rfl, hk, hrank⟩ := hcases
      obtain ⟨k', rfl, hk', hrank'⟩ := hcases'
      exact ⟨G, h.lose ht ht' ⟨hk, hk', hrank.trans hrank'.symm⟩⟩
  | move i tick read =>
      obtain ⟨k, rfl, hworks, hrank, hread⟩ := hcases
      obtain ⟨k', rfl, hworks', hrank', hread'⟩ := hcases'
      have hk : Abreast (Job.concerns a) w.jobs w'.jobs k k' :=
        ⟨marked_of_worksFor hworks, marked_of_worksFor hworks',
          hrank.trans hrank'.symm⟩
      have hsame := hread.trans hread'.symm
      by_cases hreap : w.jobs[k]? = some .reap
      · exact ⟨G, h.reap hk hsame hreap hworks hworks' tick⟩
      · exact h.move hcfg hk hsame hreap tick

end World

/-- Sessions do not influence each other: where no tag is throttled, two
runs that look the same to session `a`, whatever else happens in them,
leave its rows the same, but for the numbers of issuances and the ids
of runs, and answer its requests the same. -/
theorem sessions_apart {a : String} {disk disk' : Disk} {as as' : List Act}
    (hcfg : Along World.step
      (fun w _ => ∀ root, (w.daemon.disk.cfgFor root).tagThrottles = [])
      (World.init disk) as)
    (hsights : sights World.step (World.view a) (World.init disk) as
      = sights World.step (World.view a) (World.init disk') as') :
    SameSlice a (World.after disk as).daemon.store
        (World.after disk' as').daemon.store
      ∧ (World.after disk as).answersTo a
        = (World.after disk' as').answersTo a := by
  have halike : ∃ G, World.Alike a G (World.after disk as)
      (World.after disk' as') := by
    have h := unwinding
      (R := fun w w' => w.Tidy ∧ w'.Tidy ∧ ∃ G, World.Alike a G w w')
      ?_ ?_ ?_ ⟨World.tidy_init disk, World.tidy_init disk', _,
        World.alike_init a disk disk'⟩ hcfg hsights
    · exact h.2.2
    · rintro w w' act ⟨ht, ht', G, h⟩ hview
      exact ⟨World.tidy_step ht act, ht', G,
        h.frame (World.frame_step ht hview) (.refl w')⟩
    · rintro w w' act ⟨ht, ht', G, h⟩ hview
      exact ⟨ht, World.tidy_step ht' act, G,
        h.frame (.refl w) (World.frame_step ht' hview)⟩
    · rintro w w' act act' v ⟨ht, ht', G, h⟩ hC hv hv'
      exact ⟨World.tidy_step ht act, World.tidy_step ht' act',
        World.seen_step h ht ht' hC hv hv'⟩
  obtain ⟨G, h⟩ := halike
  exact ⟨h.daemon.slice, h.answers⟩

private def pausing : Disk :=
  .holding [("f", { runOn := [.idle (some 5)] })] { wakeDebounceSecs := 0 } none

/-- `s` pauses, and is told of its fork once five seconds are over. -/
private def pauseOf (k : Nat) (between : List Act) : List Act :=
  .stop "s" :: Act.moves 11 k 100 ++ between ++ Act.moves 30 k 105

private def besides : List Act :=
  .stop "x" :: Act.moves 9 0 99
    ++ pauseOf 1 (.lose 0 :: .stop "y" :: Act.moves 3 0 101)

private theorem besides_sights :
    sights World.step (World.view "s") (World.init pausing) (pauseOf 0 [])
      = sights World.step (World.view "s") (World.init pausing) besides := by
  decide +kernel

private theorem besides_answers :
    ((World.after pausing besides).answersTo "s").length = 1 := by
  decide +kernel

/-- In the other run `x` pauses first and loses its poll while `s`
pauses, and `y` has just asked. -/
theorem sessions_apart_besides :
    SameSlice "s" (World.after pausing (pauseOf 0 [])).daemon.store
        (World.after pausing besides).daemon.store
      ∧ (World.after pausing (pauseOf 0 [])).answersTo "s"
        = (World.after pausing besides).answersTo "s"
      ∧ ((World.after pausing besides).answersTo "s").length = 1 := by
  have hcfg : Along World.step
      (fun w _ => ∀ root, (w.daemon.disk.cfgFor root).tagThrottles = [])
      (World.init pausing) (pauseOf 0 []) :=
    (World.along_disk (by simp [pauseOf, Act.moves, Act.stop])).mono
      fun _ _ hdisk root => by rw [hdisk]; rfl
  have hapart := sessions_apart hcfg besides_sights
  exact ⟨hapart.1, hapart.2, besides_answers⟩

end Autofork
