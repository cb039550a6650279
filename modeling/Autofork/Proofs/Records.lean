/-
The record of one connection.

It accounts for the lines the connection has taken up: each has been
answered, or could not be, or was a poll that was lost, or is the one
the connection is at. Of that one it says how far it has come
(`Conn.At`). What is promised of an answer rests on the world only
through the log of what handlers returned, so a step that leaves the
connection's tasks alone leaves its record alone (`Conn.Sound.keep`).

The rest goes through the steps of the connection's own task, one lemma
for each that does more than change the stage (`Worked.sound`).
-/
import Mathlib.Data.List.Range
import Autofork.Proofs.Serving

namespace Autofork

open Lib

-- ====================================================== what is answered

/-- The task a line asks for, and the number its answer goes out
under. -/
def taskOf : Protocol.Reaction → Option (UInt64 × Request)
  | .parked id ev => some (id, .stopWait ev)
  | .dispatched id (.event ev) => some (id, .event ev)
  | .dispatched id (.stopWait ev) => some (id, .stopWait ev)
  | .dispatched id .prune => some (id, .prune)
  | _ => none

/-- What the daemon has said of itself, request by request. -/
abbrev Sayings := Protocol.RequestBody → Protocol.ResponseBody → Prop

/-- The answers that are due to the `n`-th line of a connection, given
what the daemon makes of it. -/
inductive DueTo (said : Sayings) (w : World) (tasks : List (Nat × Nat))
    (n : Nat) : Protocol.Reaction → Protocol.Response → Prop
  | refused (resp : Protocol.Response) :
      DueTo said w tasks n (.answered resp) resp
  | plain (id : UInt64) {body : Protocol.RequestBody}
      {answer : Protocol.ResponseBody} (h : said body answer) :
      DueTo said w tasks n (.dispatched id body) (Protocol.reply id answer)
  | handled {reaction : Protocol.Reaction} {id : UInt64} {req : Request}
      {k : Nat} {body : ResponseBody} (hasks : taskOf reaction = some (id, req))
      (htask : (n, k) ∈ tasks) (hlog : .answered k body ∈ w.daemon.log) :
      DueTo said w tasks n reaction (Protocol.reply id body.toWire)

/-- The connection is at the line it has taken up last. -/
def ConnStage.busy : ConnStage → Bool
  | .writing .. | .dispatching .. | .dispatched .. | .handling ..
  | .running .. | .racing .. | .parked .. => true
  | _ => false

/-- The task the connection runs. -/
def ConnStage.task : ConnStage → Option Nat
  | .running _ k | .racing _ k | .parked _ k | .losing k => some k
  | _ => none

/-- The line taken up last, when no task has been started for it. -/
def Conn.fresh (conn : Conn) : Prop := ∀ p ∈ conn.tasks, p.1 ≠ conn.current

/-- How far the connection has come with the line it is at. -/
def Conn.At (said : Sayings) (reader : LineReader) (w : World) (conn : Conn) :
    ConnStage → Prop
  | .writing resp _ => ∃ line, conn.heard[conn.current]? = some line
      ∧ DueTo said w conn.tasks conn.current (reader.reaction line) resp
  | .dispatching id body | .dispatched id body =>
      ∃ line, conn.heard[conn.current]? = some line
        ∧ reader.reaction line = .dispatched id body ∧ conn.fresh
  | .handling id req => ∃ line, conn.heard[conn.current]? = some line
      ∧ taskOf (reader.reaction line) = some (id, req) ∧ conn.fresh
  | .running id k => ∃ line req task, conn.heard[conn.current]? = some line
      ∧ taskOf (reader.reaction line) = some (id, req)
      ∧ (conn.current, k) ∈ conn.tasks ∧ w.tasks k = some task
      ∧ task.client = true
  | .racing id k => ∃ line ev, conn.heard[conn.current]? = some line
      ∧ reader.reaction line = .parked id ev
      ∧ (conn.current, k) ∈ conn.tasks ∧ w.tasks k = some
        ⟨.request (.stopWait ev), false, true, handleStopWait ev⟩
  | .parked id k => ∃ line ev task, conn.heard[conn.current]? = some line
      ∧ reader.reaction line = .parked id ev
      ∧ (conn.current, k) ∈ conn.tasks ∧ w.tasks k = some task
      ∧ task.job = .request (.stopWait ev) ∧ task.client = true
  | .losing k => (conn.current, k) ∈ conn.tasks
      ∧ ∀ task, w.tasks k = some task → task.client = false
  | _ => True

/-- The lines that are not settled. -/
def Conn.pending (conn : Conn) : List Nat :=
  if conn.stage.busy then [conn.current] else []

/-- The `n`-th line's answer has been written, or could not be, or is
about to be. -/
def Conn.Delivers (conn : Conn) (n : Nat) (resp : Protocol.Response) : Prop :=
  (n, resp) ∈ conn.sent ∨ n ∈ conn.unsent
    ∨ (n = conn.current ∧ conn.stage = .writing resp true)

/-- A connection's record is in order. -/
structure Conn.Sound (said : Sayings) (reader : LineReader) (w : World)
    (conn : Conn) : Prop where
  /-- Each line taken up is settled once, or is the one the connection is
  at. -/
  accounted : (conn.sent.map Prod.fst ++ conn.unsent ++ conn.lost
    ++ conn.pending).Perm (List.range conn.heard.length)
  ordered : (conn.sent.map Prod.fst).Pairwise (· < ·)
  due : ∀ p ∈ conn.sent, ∃ line, conn.heard[p.1]? = some line
    ∧ DueTo said w conn.tasks p.1 (reader.reaction line) p.2
  /-- A task is started for a line that asks for one. -/
  asked : ∀ p ∈ conn.tasks, ∃ line id req, conn.heard[p.1]? = some line
    ∧ taskOf (reader.reaction line) = some (id, req)
    ∧ w.jobs[p.2]? = some (.request req)
  /-- No line has two. -/
  once : (conn.tasks.map Prod.fst).Nodup
  stands : conn.At said reader w conn.stage
  /-- Only the line the connection is at has its task still running. -/
  live : ∀ p ∈ conn.tasks, w.tasks p.2 = none
    ∨ (p.1 = conn.current ∧ conn.stage.task = some p.2)
  /-- What a handler returned goes out. -/
  delivers : ∀ p ∈ conn.tasks, ∀ body, .answered p.2 body ∈ w.daemon.log →
    ∀ line id req, conn.heard[p.1]? = some line →
      taskOf (reader.reaction line) = some (id, req) →
      conn.Delivers p.1 (Protocol.reply id body.toWire)

-- ============================================================ the world

namespace World

/-- What the log says of handler `k`'s answer, and its task, are as they
were. -/
structure Keeps (w w' : World) (k : Nat) : Prop where
  tasks : w'.tasks k = w.tasks k
  answered : ∀ body, .answered k body ∈ w'.daemon.log →
    .answered k body ∈ w.daemon.log

theorem Keeps.refl (w : World) (k : Nat) : Keeps w w k := ⟨rfl, fun _ h => h⟩

/-- An answer is new only where its task returns it. -/
theorem answered_of_step {w : World} {a : Act} {k : Nat} {body : ResponseBody}
    (h : .answered k body ∈ (w.step a).daemon.log) :
    .answered k body ∈ w.daemon.log ∨ ∃ tick task, a = .move k tick
      ∧ w.tasks k = some task ∧ task.prog = .ret body
      ∧ task.client = true := by
  rcases w.step_cases a with
    ⟨j, task, op, f, tick, d, r, -, -, -, -, hex, heq⟩
    | ⟨j, tick, task, body', ha, ht, hprog, heq⟩ | ⟨disk, graceTimers, heq, -⟩
  · rw [heq] at h
    rcases (exec_deed hex).2 _ h with h | h | h
    · exact .inl h
    · exact absurd h Op.deed_ne_answered
    · cases h
  · rw [heq] at h
    simp only at h
    split at h
    next hc =>
      rcases List.mem_cons.1 h with h | h
      · obtain ⟨rfl, rfl⟩ := Obs.answered.inj h
        exact .inr ⟨tick, task, ha, ht, hprog, hc⟩
      · exact .inl h
    next => exact .inl h
  · rw [heq] at h
    exact .inl h

/-- Tasks and answers go by numbers that are in use. -/
structure Filed (w : World) : Prop where
  numbered : w.Numbered
  answered : ∀ k body, .answered k body ∈ w.daemon.log → k < w.jobs.length

theorem filed_init (disk : Disk) : (init disk).Filed :=
  ⟨numbered_init disk, fun _ _ h => by cases h⟩

theorem filed_step {w : World} (h : w.Filed) (a : Act) : (w.step a).Filed := by
  refine ⟨numbered_step h.numbered a, fun k body hk => ?_⟩
  have hlen := (w.step_jobs a).length_le
  rcases answered_of_step hk with hk | ⟨tick, task, -, ht, -⟩
  · exact Nat.lt_of_lt_of_le (h.answered k body hk) hlen
  · exact Nat.lt_of_lt_of_le (h.numbered.lt ht) hlen

theorem filed_took {w : World} (h : w.Filed) (a : Option Act) :
    (w.took a).Filed := by
  cases a with
  | none => exact h
  | some act => exact filed_step h act

/-- An action on another task keeps this one. -/
theorem keeps_step {w : World} {a : Act} {k : Nat} (hk : k < w.jobs.length)
    (hmove : ∀ tick, a ≠ .move k tick) (hlose : a ≠ .lose k) :
    Keeps w (w.step a) k := by
  refine ⟨?_, fun body h => ?_⟩
  · rcases w.step_frame a k with h | ⟨tick, h⟩ | ⟨h, -⟩ | ⟨h, -⟩
    · exact h
    · exact absurd h (hmove tick)
    · exact absurd h hlose
    · omega
  · rcases answered_of_step h with h | ⟨tick, task, h, -⟩
    · exact h
    · exact absurd h (hmove tick)

/-- A request becomes a task of its own. -/
theorem tasks_receive (w : World) (req : Request) :
    (w.step (.receive req)).tasks w.jobs.length
      = some ⟨.request req, false, true, (Job.request req).handler⟩ := by
  exact upd_same ..

theorem jobs_receive (w : World) (req : Request) :
    (w.step (.receive req)).jobs = w.jobs ++ [.request req] := rfl

/-- A step starts one job at most. -/
theorem jobs_grow (w : World) (a : Act) :
    (w.step a).jobs = w.jobs ∨ ∃ job, (w.step a).jobs = w.jobs ++ [job] := by
  cases a with
  | receive req => exact .inr ⟨_, rfl⟩
  | reap => exact .inr ⟨_, rfl⟩
  | edit disk => exact .inl rfl
  | grace i =>
      simp only [step, startGrace]
      split
      · exact .inr ⟨_, rfl⟩
      · exact .inl rfl
  | lose k =>
      simp only [step, losePoll]
      split
      · split <;> exact .inl rfl
      · exact .inl rfl
  | move k tick =>
      rcases w.step_cases (.move k tick) with
        ⟨_, _, _, _, _, _, _, -, -, -, -, -, heq⟩
        | ⟨_, _, _, _, -, -, -, heq⟩ | ⟨_, _, -, hsame⟩
      · exact .inl (by rw [heq]; rfl)
      · exact .inl (by rw [heq])
      · exact .inl (by rw [hsame k tick rfl])

/-- A request has a number only from when it is received. -/
theorem request_of_step {w : World} {a : Act} {k : Nat} {req : Request}
    (h : (w.step a).jobs[k]? = some (.request req)) :
    w.jobs[k]? = some (.request req)
      ∨ (a = .receive req ∧ k = w.jobs.length) := by
  rcases w.jobs_grow a with hsame | ⟨job, hjobs⟩
  · exact .inl (hsame ▸ h)
  · rw [hjobs] at h
    by_cases hk : k < w.jobs.length
    · rw [List.getElem?_append_left hk] at h
      exact .inl h
    · have hlt := (List.getElem?_eq_some_iff.1 h).1
      rw [List.length_append, List.length_singleton] at hlt
      have hlen : k = w.jobs.length := by omega
      rw [hlen, List.getElem?_concat_length, Option.some.injEq] at h
      exact .inr ⟨receive_of_jobs (h ▸ hjobs), hlen⟩

/-- A task that has not returned keeps its job and its client. -/
theorem tasks_move {w : World} {k : Nat} {task : Task} {op : Op}
    {f : op.Res → Handler ResponseBody} (ht : w.tasks k = some task)
    (hprog : task.prog = .call op f) (tick : Tick) :
    ∃ task', (w.step (.move k tick)).tasks k = some task'
      ∧ task'.job = task.job ∧ task'.client = task.client := by
  simp only [step, move, ht, hprog]
  split
  · exact ⟨task, ht, rfl, rfl⟩
  · exact ⟨_, upd_same .., rfl, rfl⟩

/-- A task that returns is gone, and its client has the answer. -/
theorem tasks_ret {w : World} {k : Nat} {task : Task} {body : ResponseBody}
    (ht : w.tasks k = some task) (hprog : task.prog = .ret body)
    (tick : Tick) :
    (w.step (.move k tick)).tasks k = none
      ∧ (task.client = true →
        .answered k body ∈ (w.step (.move k tick)).daemon.log) := by
  obtain ⟨job, started, client, prog⟩ := task
  subst hprog
  simp only [step, move, ht, finish]
  cases client with
  | true => exact ⟨upd_same .., fun _ => List.mem_cons_self⟩
  | false => exact ⟨upd_same .., fun h => by cases h⟩

/-- A poll that is lost has no client any more. -/
theorem tasks_lose {w : World} {k : Nat} {ev : Event} {task : Task} {op : Op}
    {f : op.Res → Handler ResponseBody} (ht : w.tasks k = some task)
    (hjob : task.job = .request (.stopWait ev)) (hclient : task.client = true)
    (hprog : task.prog = .call op f)
    (hlose : task.started = false ∨ op.awaits = true) :
    (w.step (.lose k)).tasks k = some
      ⟨.request (.stopWait ev), true, false,
        onPollLost ev.sessionId task.started⟩ := by
  obtain ⟨job, started, client, prog⟩ := task
  subst hjob hclient hprog
  have hcond : (!started || op.awaits) = true := by simpa using hlose
  simp only [step, losePoll, ht, hcond, if_true]
  exact upd_same ..

end World

-- ============================================== steps that leave records

variable {said said' : Sayings}

theorem DueTo.mono {w w' : World} {tasks tasks' : List (Nat × Nat)} {n : Nat}
    {reaction : Protocol.Reaction} {resp : Protocol.Response}
    (hlog : w.daemon.log <:+ w'.daemon.log) (htasks : tasks ⊆ tasks')
    (h : DueTo said w tasks n reaction resp) :
    DueTo said w' tasks' n reaction resp := by
  cases h with
  | refused => exact .refused resp
  | plain id h => exact .plain id h
  | handled hasks htask h => exact .handled hasks (htasks htask) (hlog.subset h)

/-- An answer stays due when more has been said. -/
theorem DueTo.heed {w : World} {tasks : List (Nat × Nat)} {n : Nat}
    {reaction : Protocol.Reaction} {resp : Protocol.Response}
    (hsaid : ∀ body answer, said body answer → said' body answer)
    (h : DueTo said w tasks n reaction resp) :
    DueTo said' w tasks n reaction resp := by
  cases h with
  | refused => exact .refused resp
  | plain id h => exact .plain id (hsaid _ _ h)
  | handled hasks htask h => exact .handled hasks htask h

section record

variable {reader : LineReader} {w w' : World} {conn : Conn}

/-- A record stays in order when more has been said. -/
theorem Conn.Sound.heed
    (hsaid : ∀ body answer, said body answer → said' body answer)
    (h : conn.Sound said reader w) : conn.Sound said' reader w where
  accounted := h.accounted
  ordered := h.ordered
  due p hp := by
    obtain ⟨line, hline, hdue⟩ := h.due p hp
    exact ⟨line, hline, hdue.heed hsaid⟩
  asked := h.asked
  once := h.once
  stands := by
    have hat := h.stands
    generalize conn.stage = stage at hat ⊢
    cases stage with
    | writing resp must =>
        obtain ⟨line, hline, hdue⟩ := hat
        exact ⟨line, hline, hdue.heed hsaid⟩
    | _ => exact hat
  live := h.live
  delivers := h.delivers

/-- What the connection is at does not change with the tasks of
others. -/
theorem Conn.At.keep {stage : ConnStage} (h : conn.At said reader w stage)
    (hlog : w.daemon.log <:+ w'.daemon.log)
    (hkeep : ∀ p ∈ conn.tasks, World.Keeps w w' p.2) :
    conn.At said reader w' stage := by
  have htasks : ∀ {k : Nat}, (conn.current, k) ∈ conn.tasks →
      w'.tasks k = w.tasks k := fun hk => (hkeep _ hk).tasks
  cases stage with
  | writing resp must =>
      obtain ⟨line, hline, hdue⟩ := h
      exact ⟨line, hline, hdue.mono hlog (List.Subset.refl _)⟩
  | running id k =>
      obtain ⟨line, req, task, hline, hasks, hk, ht, hclient⟩ := h
      exact ⟨line, req, task, hline, hasks, hk, (htasks hk).trans ht, hclient⟩
  | racing id k =>
      obtain ⟨line, ev, hline, hreact, hk, ht⟩ := h
      exact ⟨line, ev, hline, hreact, hk, (htasks hk).trans ht⟩
  | parked id k =>
      obtain ⟨line, ev, task, hline, hreact, hk, ht, hrest⟩ := h
      exact ⟨line, ev, task, hline, hreact, hk, (htasks hk).trans ht, hrest⟩
  | losing k =>
      obtain ⟨hk, ht⟩ := h
      exact ⟨hk, fun task htask => ht task ((htasks hk).symm.trans htask)⟩
  | _ => exact h

/-- A step that settles no line. -/
theorem Conn.Sound.carry (h : conn.Sound said reader w)
    (hjobs : w.jobs <+: w'.jobs) (hlog : w.daemon.log <:+ w'.daemon.log)
    {stage : ConnStage} (inbox strays : List String) (ended : Bool)
    (hbusy : stage.busy = conn.stage.busy)
    (hat : { conn with stage, inbox, strays, ended }.At said reader w' stage)
    (hlive : ∀ p ∈ conn.tasks, w'.tasks p.2 = none
      ∨ (p.1 = conn.current ∧ stage.task = some p.2))
    (hdelivers : ∀ p ∈ conn.tasks, ∀ body,
      .answered p.2 body ∈ w'.daemon.log → ∀ line id req,
        conn.heard[p.1]? = some line →
        taskOf (reader.reaction line) = some (id, req) →
        { conn with stage, inbox, strays, ended }.Delivers p.1
          (Protocol.reply id body.toWire)) :
    { conn with stage, inbox, strays, ended }.Sound said reader w' where
  accounted := by
    have hpending : { conn with stage, inbox, strays, ended }.pending
        = conn.pending := by
      simp only [pending, hbusy]
      rfl
    rw [hpending]
    exact h.accounted
  ordered := h.ordered
  due p hp := by
    obtain ⟨line, hline, hdue⟩ := h.due p hp
    exact ⟨line, hline, hdue.mono hlog (List.Subset.refl _)⟩
  asked p hp := by
    obtain ⟨line, id, req, hline, hasks, hjob⟩ := h.asked p hp
    obtain ⟨js, hjs⟩ := hjobs
    refine ⟨line, id, req, hline, hasks, ?_⟩
    rw [← hjs, List.getElem?_append_left (List.getElem?_eq_some_iff.1 hjob).1,
      hjob]
  once := h.once
  stands := hat
  live := hlive
  delivers := hdelivers

/-- A record stands whatever happens to the tasks of others. -/
theorem Conn.Sound.keep (h : conn.Sound said reader w)
    (hjobs : w.jobs <+: w'.jobs) (hlog : w.daemon.log <:+ w'.daemon.log)
    (hkeep : ∀ p ∈ conn.tasks, World.Keeps w w' p.2) :
    conn.Sound said reader w' := by
  refine h.carry hjobs hlog conn.inbox conn.strays conn.ended rfl
    (h.stands.keep hlog hkeep) (fun p hp => ?_) fun p hp body hbody => ?_
  · rw [(hkeep p hp).tasks]
    exact h.live p hp
  · exact h.delivers p hp body ((hkeep p hp).answered body hbody)

/-- What has been delivered, a connection that writes nothing yet has
delivered before. -/
theorem Conn.Sound.delivered (h : conn.Sound said reader w)
    (hwrites : ∀ resp, conn.stage ≠ .writing resp true)
    {p : Nat × Nat} (hp : p ∈ conn.tasks) {body : ResponseBody}
    (hbody : .answered p.2 body ∈ w.daemon.log) {line : String}
    {id : UInt64} {req : Request} (hline : conn.heard[p.1]? = some line)
    (hasks : taskOf (reader.reaction line) = some (id, req)) :
    (p.1, Protocol.reply id body.toWire) ∈ conn.sent ∨ p.1 ∈ conn.unsent := by
  rcases h.delivers p hp body hbody line id req hline hasks with
    hsent | hunsent | ⟨-, hstage⟩
  · exact .inl hsent
  · exact .inr hunsent
  · exact absurd hstage (hwrites _)

/-- A change of stage, and of what has arrived. -/
theorem Conn.Sound.restage (h : conn.Sound said reader w) {stage : ConnStage}
    (inbox strays : List String) (ended : Bool)
    (hbusy : stage.busy = conn.stage.busy)
    (hwrites : ∀ resp, conn.stage ≠ .writing resp true)
    (htask : ∀ k, conn.stage.task = some k →
      stage.task = some k ∨ w.tasks k = none)
    (hat : { conn with stage, inbox, strays, ended }.At said reader w stage) :
    { conn with stage, inbox, strays, ended }.Sound said reader w := by
  refine h.carry (List.prefix_refl _) (List.suffix_refl _) inbox strays ended
    hbusy hat (fun p hp => ?_) fun p hp body hbody line id req hline hasks => ?_
  · rcases h.live p hp with hgone | ⟨hcur, hk⟩
    · exact .inl hgone
    · rcases htask _ hk with hk | hk
      · exact .inr ⟨hcur, hk⟩
      · exact .inl hk
  · exact (h.delivered hwrites hp hbody hline hasks).imp_right .inl

/-- What arrives leaves the record alone. -/
theorem Conn.Sound.received (h : conn.Sound said reader w)
    (arrived inbox : List String) (ended : Bool) :
    { conn with arrived, inbox, ended }.Sound said reader w where
  accounted := h.accounted
  ordered := h.ordered
  due := h.due
  asked := h.asked
  once := h.once
  stands := by
    have hat := h.stands
    cases hstage : conn.stage <;> rw [hstage] at hat <;> exact hat
  live := h.live
  delivers := h.delivers

/-- The lines before the one a busy connection is at. -/
theorem Conn.Sound.settled (h : conn.Sound said reader w)
    (hbusy : conn.stage.busy = true) :
    0 < conn.heard.length
      ∧ (conn.sent.map Prod.fst ++ conn.unsent ++ conn.lost).Perm
        (List.range conn.current) := by
  have hacc := h.accounted
  rw [Conn.pending, if_pos hbusy] at hacc
  have hpos : 0 < conn.heard.length := by
    have hlen := hacc.length_eq
    simp only [List.length_append, List.length_range, List.length_singleton]
      at hlen
    omega
  refine ⟨hpos, ?_⟩
  have hsucc : conn.heard.length = conn.current + 1 := by
    unfold Conn.current
    omega
  rw [hsucc, List.range_succ] at hacc
  exact (List.perm_append_right_iff _).1 hacc

/-- Those of one that is not. -/
theorem Conn.Sound.settled_all (h : conn.Sound said reader w)
    (hidle : conn.stage.busy = false) :
    (conn.sent.map Prod.fst ++ conn.unsent ++ conn.lost).Perm
      (List.range conn.heard.length) := by
  have hacc := h.accounted
  rw [Conn.pending, if_neg (by simp [hidle]), List.append_nil] at hacc
  exact hacc

/-- A line is written to after those before it. -/
theorem Conn.Sound.sent_lt (h : conn.Sound said reader w)
    (hbusy : conn.stage.busy = true) :
    ∀ n ∈ conn.sent.map Prod.fst, n < conn.current := by
  intro n hn
  exact List.mem_range.1 ((h.settled hbusy).2.subset
    (List.mem_append_left _ (List.mem_append_left _ hn)))

-- ========================================================= taking a line

/-- The connection takes up a line. -/
theorem Conn.Sound.take (h : conn.Sound said reader w)
    (hidle : conn.stage.busy = false) (htask : conn.stage.task = none)
    (inbox : List String) (line : String) (stage : ConnStage)
    (hbusy : stage.busy = true)
    (hat : ({ conn with inbox }.hear line stage).At said reader w stage) :
    ({ conn with inbox }.hear line stage).Sound said reader w := by
  have hold : ∀ {n : Nat} {l : String}, conn.heard[n]? = some l →
      (conn.heard ++ [line])[n]? = some l := fun hl => by
    rw [List.getElem?_append_left (List.getElem?_eq_some_iff.1 hl).1, hl]
  have hnotwriting : ∀ resp must, conn.stage ≠ .writing resp must := by
    intro resp must hstage
    rw [hstage] at hidle
    cases hidle
  refine ⟨?_, h.ordered, ?_, ?_, h.once, hat, ?_, ?_⟩
  · have hpending : ({ conn with inbox }.hear line stage).pending
        = [conn.heard.length] := by
      simp [Conn.pending, Conn.hear, Conn.current, hbusy]
    rw [hpending]
    show List.Perm _ (List.range (conn.heard ++ [line]).length)
    rw [List.length_append, List.length_singleton, List.range_succ]
    exact (h.settled_all hidle).append_right _
  · intro p hp
    obtain ⟨l, hl, hdue⟩ := h.due p hp
    exact ⟨l, hold hl, hdue⟩
  · intro p hp
    obtain ⟨l, id, req, hl, hrest⟩ := h.asked p hp
    exact ⟨l, id, req, hold hl, hrest⟩
  · intro p hp
    rcases h.live p hp with hgone | ⟨-, hk⟩
    · exact .inl hgone
    · rw [htask] at hk
      cases hk
  · intro p hp body hbody l id req hl hasks
    obtain ⟨l', -, -, hl', -⟩ := h.asked p hp
    have hsame : l' = l := by
      have hget : (conn.heard ++ [line])[p.1]? = some l := hl
      rw [hold hl', Option.some.injEq] at hget
      exact hget
    subst hsame
    rcases h.delivers p hp body hbody l' id req hl' hasks with
      hsent | hunsent | ⟨-, hstage⟩
    · exact .inl hsent
    · exact .inr (.inl hunsent)
    · exact absurd hstage (hnotwriting _ _)

/-- No task is for a line that has just been taken up. -/
theorem Conn.Sound.fresh_hear (h : conn.Sound said reader w) (inbox : List String)
    (line : String) (stage : ConnStage) :
    ({ conn with inbox }.hear line stage).fresh := by
  intro p hp hcur
  obtain ⟨l, -, -, hl, -⟩ := h.asked p hp
  have hlt := (List.getElem?_eq_some_iff.1 hl).1
  simp only [Conn.hear, Conn.current, List.length_append,
    List.length_singleton] at hcur
  omega

theorem Conn.heard_hear (conn : Conn) (inbox : List String) (line : String)
    (stage : ConnStage) :
    ({ conn with inbox }.hear line stage).heard[
      ({ conn with inbox }.hear line stage).current]? = some line := by
  simp [Conn.hear, Conn.current]

-- ======================================================= starting a task

/-- The line the connection is at becomes a task. -/
theorem Conn.Sound.begin (h : conn.Sound said reader w) (hfiled : w.Filed)
    (hbusy : conn.stage.busy = true)
    (hwrites : ∀ resp, conn.stage ≠ .writing resp true) (hfresh : conn.fresh)
    {line : String} {id : UInt64} {req : Request}
    (hline : conn.heard[conn.current]? = some line)
    (hasks : taskOf (reader.reaction line) = some (id, req)) (stage : ConnStage)
    (hstage : stage.busy = true) (htask : stage.task = some w.jobs.length)
    (hat : { conn with
        tasks := conn.tasks ++ [(conn.current, w.jobs.length)]
        stage }.At said reader (w.step (.receive req)) stage) :
    { conn with
      tasks := conn.tasks ++ [(conn.current, w.jobs.length)]
      stage }.Sound said reader (w.step (.receive req)) := by
  -- the tasks so far are those of lines before
  have hlt : ∀ p ∈ conn.tasks, p.2 < w.jobs.length := by
    intro p hp
    obtain ⟨_, _, _, _, _, hjob⟩ := h.asked p hp
    exact (List.getElem?_eq_some_iff.1 hjob).1
  have hkeep : ∀ p ∈ conn.tasks,
      World.Keeps w (w.step (.receive req)) p.2 := fun p hp =>
    World.keeps_step (hlt p hp) (fun _ ha => by cases ha) (fun ha => by cases ha)
  have hsound := h.keep (w.step_jobs (.receive req))
    (w.step_log (.receive req)) hkeep
  have hsub : conn.tasks ⊆ conn.tasks ++ [(conn.current, w.jobs.length)] :=
    List.subset_append_left _ _
  have hgone : ∀ p ∈ conn.tasks, w.tasks p.2 = none := by
    intro p hp
    rcases h.live p hp with hgone | ⟨hcur, -⟩
    · exact hgone
    · exact absurd hcur (hfresh p hp)
  refine ⟨?_, h.ordered, ?_, ?_, ?_, hat, ?_, ?_⟩
  · have hacc := h.accounted
    simp only [Conn.pending, hbusy, hstage] at hacc ⊢
    exact hacc
  · intro p hp
    obtain ⟨l, hl, hdue⟩ := hsound.due p hp
    exact ⟨l, hl, hdue.mono (List.suffix_refl _) hsub⟩
  · intro p hp
    rcases List.mem_append.1 hp with hp | hp
    · exact hsound.asked p hp
    · rw [List.mem_singleton.1 hp]
      refine ⟨line, id, req, hline, hasks, ?_⟩
      rw [World.jobs_receive]
      simp
  · rw [List.map_append, List.nodup_append]
    refine ⟨h.once, List.nodup_singleton _, ?_⟩
    intro n hn m hm hnm
    obtain ⟨p, hp, rfl⟩ := List.mem_map.1 hn
    simp only [List.map_cons, List.map_nil, List.mem_singleton] at hm
    exact hfresh p hp (hnm.trans hm)
  · intro p hp
    rcases List.mem_append.1 hp with hp | hp
    · exact .inl ((hkeep p hp).tasks.trans (hgone p hp))
    · rw [List.mem_singleton.1 hp]
      exact .inr ⟨rfl, htask⟩
  · intro p hp body hbody l id' req' hl hasks'
    rcases List.mem_append.1 hp with hp | hp
    · rcases hsound.delivers p hp body hbody l id' req' hl hasks' with
        hsent | hunsent | ⟨-, hstage⟩
      · exact .inl hsent
      · exact .inr (.inl hunsent)
      · exact absurd hstage (hwrites _)
    · -- a number that is not in use yet has no answer
      rw [List.mem_singleton.1 hp] at hbody
      exact absurd (hfiled.answered _ body hbody) (Nat.lt_irrefl _)

-- =============================================================== writing

/-- An answer is written, or cannot be. -/
theorem Conn.Sound.write (h : conn.Sound said reader w)
    {resp : Protocol.Response} {must : Bool}
    (hstage : conn.stage = .writing resp must) (ok : Bool) :
    (conn.write resp must ok).Sound said reader w := by
  have hbusy : conn.stage.busy = true := by rw [hstage]; rfl
  obtain ⟨hpos, hperm⟩ := h.settled hbusy
  have hlen : conn.heard.length = conn.current + 1 := by
    unfold Conn.current
    omega
  have hgone : ∀ p ∈ conn.tasks, w.tasks p.2 = none := by
    intro p hp
    rcases h.live p hp with hgone | ⟨-, hk⟩
    · exact hgone
    · rw [hstage] at hk
      cases hk
  cases ok with
  | true =>
      refine ⟨?_, ?_, ?_, h.asked, h.once, trivial,
        fun p hp => .inl (hgone p hp), ?_⟩
      · show List.Perm ((conn.sent ++ [(conn.current, resp)]).map Prod.fst
          ++ conn.unsent ++ conn.lost ++ []) (List.range conn.heard.length)
        rw [List.append_nil, List.map_append, hlen, List.range_succ]
        refine .trans ?_ (hperm.append_right [conn.current])
        simp only [List.append_assoc]
        refine List.Perm.append_left _ ?_
        rw [← List.append_assoc conn.unsent]
        exact List.perm_append_comm
      · show List.Pairwise _ ((conn.sent ++ [(conn.current, resp)]).map Prod.fst)
        rw [List.map_append, List.pairwise_append]
        refine ⟨h.ordered, List.pairwise_singleton .., fun n hn m hm => ?_⟩
        rw [List.mem_singleton.1 hm]
        exact h.sent_lt hbusy n hn
      · intro p hp
        rcases List.mem_append.1 hp with hp | hp
        · exact h.due p hp
        · rw [List.mem_singleton.1 hp]
          have hat := h.stands
          rw [hstage] at hat
          exact hat
      · intro p hp body hbody line id req hline hasks
        rcases h.delivers p hp body hbody line id req hline hasks with
          hsent | hunsent | ⟨hcur, hw⟩
        · exact .inl (List.mem_append_left _ hsent)
        · exact .inr (.inl hunsent)
        · rw [hstage] at hw
          injection hw with hresp
          rw [hcur, ← hresp]
          exact .inl (List.mem_append_right _ List.mem_cons_self)
  | false =>
      have hidle : (conn.write resp must false).stage.busy = false := by
        cases must <;> rfl
      refine ⟨?_, h.ordered, h.due, h.asked, h.once, ?_,
        fun p hp => .inl (hgone p hp), ?_⟩
      · rw [Conn.pending, if_neg (by simp [hidle]), List.append_nil]
        show List.Perm (conn.sent.map Prod.fst
          ++ (conn.unsent ++ [conn.current]) ++ conn.lost)
          (List.range conn.heard.length)
        rw [hlen, List.range_succ]
        refine .trans ?_ (hperm.append_right [conn.current])
        rw [← List.append_assoc, List.append_assoc _ [conn.current],
          List.append_assoc _ conn.lost]
        exact List.Perm.append_left _ List.perm_append_comm
      · cases must <;> trivial
      · intro p hp body hbody line id req hline hasks
        rcases h.delivers p hp body hbody line id req hline hasks with
          hsent | hunsent | ⟨hcur, -⟩
        · exact .inl hsent
        · exact .inr (.inl (List.mem_append_left _ hunsent))
        · exact .inr (.inl (List.mem_append_right _ (by rw [hcur]; simp)))

/-- A plain answer is ready. -/
theorem Conn.Sound.reply (h : conn.Sound said reader w) {id : UInt64}
    {body : Protocol.RequestBody} {answer : Protocol.ResponseBody}
    (hstage : conn.stage = .dispatched id body) (hplain : said body answer) :
    (conn.answer id answer).Sound said reader w := by
  have hat := h.stands
  rw [hstage] at hat
  obtain ⟨line, hline, hreact, -⟩ := hat
  refine h.restage conn.inbox conn.strays conn.ended ?_ ?_ ?_ ?_
  · rw [hstage]
    rfl
  · intro resp hw
    rw [hstage] at hw
    cases hw
  · intro k hk
    rw [hstage] at hk
    cases hk
  · exact ⟨line, hline, by
      rw [hreact]
      exact .plain id hplain⟩

-- ======================================================== its task moves

/-- The task a connection runs is that of the line it is at, and no
other line's. -/
theorem Conn.Sound.eq_current (h : conn.Sound said reader w) {k : Nat}
    {task : Task} (ht : w.tasks k = some task) {p : Nat × Nat}
    (hp : p ∈ conn.tasks) (hpk : p.2 = k) : p = (conn.current, k) := by
  rcases h.live p hp with hgone | ⟨hcur, -⟩
  · rw [hpk, ht] at hgone
    cases hgone
  · exact Prod.ext hcur hpk

/-- The tasks of a connection have numbers that are in use. -/
theorem Conn.Sound.lt (h : conn.Sound said reader w) {p : Nat × Nat}
    (hp : p ∈ conn.tasks) : p.2 < w.jobs.length := by
  obtain ⟨_, _, _, _, _, hjob⟩ := h.asked p hp
  exact (List.getElem?_eq_some_iff.1 hjob).1

/-- The task a connection waits for, and the line it is for. -/
theorem Conn.Sound.serving (h : conn.Sound said reader w) {id : UInt64} {k : Nat}
    (hs : WaitsFor conn.stage id k) :
    ∃ line req task, conn.heard[conn.current]? = some line
      ∧ taskOf (reader.reaction line) = some (id, req)
      ∧ (conn.current, k) ∈ conn.tasks ∧ w.tasks k = some task
      ∧ task.client = true := by
  have hat := h.stands
  generalize conn.stage = stage at hs hat
  cases hs with
  | running => exact hat
  | parked =>
      obtain ⟨line, ev, task, hline, hreact, hk, ht, -, hclient⟩ := hat
      exact ⟨line, _, task, hline, by rw [hreact]; rfl, hk, ht, hclient⟩

theorem WaitsFor.busy {stage : ConnStage} {id : UInt64} {k : Nat}
    (h : WaitsFor stage id k) : stage.busy = true := by
  cases h <;> rfl

theorem WaitsFor.task {stage : ConnStage} {id : UInt64} {k : Nat}
    (h : WaitsFor stage id k) : stage.task = some k := by
  cases h <;> rfl

theorem WaitsFor.ne_writing {stage : ConnStage} {id : UInt64} {k : Nat}
    (h : WaitsFor stage id k) (resp : Protocol.Response) (must : Bool) :
    stage ≠ .writing resp must := by
  cases h <;> exact nofun

/-- The handler a connection waits for performs an operation. -/
theorem Conn.Sound.advance (h : conn.Sound said reader w) {id : UInt64} {k : Nat}
    (hs : WaitsFor conn.stage id k) {task : Task} {op : Op}
    {f : op.Res → Handler ResponseBody} (ht : w.tasks k = some task)
    (hprog : task.prog = .call op f) (tick : Tick) :
    conn.Sound said reader (w.step (.move k tick)) := by
  obtain ⟨task', ht', hjob', hclient'⟩ := World.tasks_move ht hprog tick
  refine h.carry (w.step_jobs _) (w.step_log _) conn.inbox conn.strays conn.ended
    rfl ?_ (fun p hp => ?_) fun p hp body hbody line id req hline hasks => ?_
  · have hat := h.stands
    generalize conn.stage = stage at hs hat
    cases hs with
    | running =>
        obtain ⟨line, req, old, hline, hasks, hk, hold, hclient⟩ := hat
        rw [ht, Option.some.injEq] at hold
        exact ⟨line, req, task', hline, hasks, hk, ht', by
          rw [hclient', hold, hclient]⟩
    | parked =>
        obtain ⟨line, ev, old, hline, hreact, hk, hold, hjob, hclient⟩ := hat
        rw [ht, Option.some.injEq] at hold
        exact ⟨line, ev, task', hline, hreact, hk, ht', by
          rw [hjob', hold, hjob], by rw [hclient', hold, hclient]⟩
  · by_cases hpk : p.2 = k
    · rw [h.eq_current ht hp hpk]
      exact .inr ⟨rfl, hs.task⟩
    · rw [(World.keeps_step (h.lt hp) (fun _ ha => hpk (Act.move.inj ha).1.symm)
        (fun ha => by cases ha)).tasks]
      exact h.live p hp
  · rcases World.answered_of_step hbody with hbody | ⟨_, old, ha, hold, hret, -⟩
    · exact h.delivers p hp body hbody line id req hline hasks
    · rw [(Act.move.inj ha).1] at ht
      rw [ht, Option.some.injEq] at hold
      rw [← hold, hprog] at hret
      cases hret

/-- The handler a connection waits for returns. -/
theorem Conn.Sound.answer (h : conn.Sound said reader w) {id : UInt64} {k : Nat}
    (hs : WaitsFor conn.stage id k) {task : Task} {body : ResponseBody}
    (ht : w.tasks k = some task) (hprog : task.prog = .ret body)
    (tick : Tick) :
    (conn.answer id body.toWire).Sound said reader (w.step (.move k tick)) := by
  obtain ⟨line, req, old, hline, hasks, hk, hold, hclient⟩ := h.serving hs
  rw [ht, Option.some.injEq] at hold
  subst hold
  obtain ⟨hgone, hlogged⟩ := World.tasks_ret ht hprog tick
  refine h.carry (w.step_jobs _) (w.step_log _) conn.inbox conn.strays conn.ended
    (hs.busy).symm ?_ (fun p hp => ?_)
    fun p hp body' hbody line' id' req' hline' hasks' => ?_
  · exact ⟨line, hline, .handled hasks hk (hlogged hclient)⟩
  · by_cases hpk : p.2 = k
    · rw [hpk]
      exact .inl hgone
    · rw [(World.keeps_step (h.lt hp) (fun _ ha => hpk (Act.move.inj ha).1.symm)
        (fun ha => by cases ha)).tasks]
      rcases h.live p hp with hnone | ⟨-, htask⟩
      · exact .inl hnone
      · rw [hs.task, Option.some.injEq] at htask
        exact absurd htask.symm hpk
  · rcases World.answered_of_step hbody with hbody | ⟨_, old, ha, hold, hret, -⟩
    · exact (h.delivered (fun resp => hs.ne_writing resp true) hp hbody hline'
        hasks').imp_right .inl
    · -- the answer is the one just returned, and the line the current one
      have hpk : p.2 = k := (Act.move.inj ha).1.symm
      rw [hpk, ht, Option.some.injEq] at hold
      rw [← hold, hprog] at hret
      injection hret with hsame
      subst hsame
      have hcur : p = (conn.current, k) := h.eq_current ht hp hpk
      rw [hcur] at hline' ⊢
      rw [hline, Option.some.injEq] at hline'
      subst hline'
      rw [hasks, Option.some.injEq, Prod.mk.injEq] at hasks'
      rw [← hasks'.1]
      exact .inr (.inr ⟨rfl, rfl⟩)

/-- The poll a connection races, and the line it is for. -/
theorem Conn.Sound.raced (h : conn.Sound said reader w) {k : Nat}
    (hr : Races conn.stage k) :
    ∃ id line ev task, conn.heard[conn.current]? = some line
      ∧ reader.reaction line = .parked id ev
      ∧ (conn.current, k) ∈ conn.tasks ∧ w.tasks k = some task
      ∧ task.job = .request (.stopWait ev) ∧ task.client = true
      ∧ ((∃ id, conn.stage = .racing id k) →
        task.started = false ∧ task.prog = handleStopWait ev) := by
  have hat := h.stands
  generalize conn.stage = stage at hr hat ⊢
  cases hr with
  | racing id =>
      obtain ⟨line, ev, hline, hreact, hk, ht⟩ := hat
      exact ⟨id, line, ev, _, hline, hreact, hk, ht, rfl, rfl,
        fun _ => ⟨rfl, rfl⟩⟩
  | parked id =>
      obtain ⟨line, ev, task, hline, hreact, hk, ht, hjob, hclient⟩ := hat
      exact ⟨id, line, ev, task, hline, hreact, hk, ht, hjob, hclient,
        fun ⟨_, hstage⟩ => by cases hstage⟩

theorem Races.busy {stage : ConnStage} {k : Nat} (h : Races stage k) :
    stage.busy = true := by
  cases h <;> rfl

theorem Races.task {stage : ConnStage} {k : Nat} (h : Races stage k) :
    stage.task = some k := by
  cases h <;> rfl

theorem Races.ne_writing {stage : ConnStage} {k : Nat} (h : Races stage k)
    (resp : Protocol.Response) : stage ≠ .writing resp true := by
  cases h <;> exact nofun

/-- The connection of a poll that waits ends: the poll is lost. -/
theorem Conn.Sound.lose (h : conn.Sound said reader w) {k : Nat}
    (hr : Races conn.stage k)
    (hawait : (∃ id, conn.stage = .racing id k) ∨ w.awaiting k = true) :
    { conn with
      lost := conn.lost ++ [conn.current]
      stage := .losing k }.Sound said reader (w.step (.lose k)) := by
  obtain ⟨id, line, ev, task, hline, hreact, hk, ht, hjob, hclient, hfresh⟩ :=
    h.raced hr
  obtain ⟨hpos, hperm⟩ := h.settled hr.busy
  have hlen : conn.heard.length = conn.current + 1 := by
    unfold Conn.current
    omega
  -- the handler is between two operations, so it can be dropped
  obtain ⟨op, f, hprog, hlose⟩ : ∃ op f, task.prog = .call op f
      ∧ (task.started = false ∨ op.awaits = true) := by
    rcases hawait with hracing | hawait
    · obtain ⟨hstarted, hprog⟩ := hfresh hracing
      exact ⟨_, _, hprog, .inl hstarted⟩
    · rw [World.awaiting, Option.any_eq_true] at hawait
      obtain ⟨op, hab, hop⟩ := hawait
      obtain ⟨task', f, ht', hprog⟩ := World.about_eq_some hab
      rw [ht, Option.some.injEq] at ht'
      exact ⟨op, f, ht' ▸ hprog, .inr hop⟩
  have ht' := World.tasks_lose ht hjob hclient hprog hlose
  have hkeep : ∀ {p : Nat × Nat}, p ∈ conn.tasks → p.2 ≠ k →
      World.Keeps w (w.step (.lose k)) p.2 := fun hp hpk =>
    World.keeps_step (h.lt hp) (fun _ ha => by cases ha)
      (fun ha => hpk (Act.lose.inj ha).symm)
  refine ⟨?_, h.ordered, ?_, ?_, h.once, ⟨hk, ?_⟩, ?_, ?_⟩
  · show List.Perm (conn.sent.map Prod.fst ++ conn.unsent
      ++ (conn.lost ++ [conn.current]) ++ []) (List.range conn.heard.length)
    rw [List.append_nil, ← List.append_assoc, hlen, List.range_succ]
    exact hperm.append_right _
  · intro p hp
    obtain ⟨l, hl, hdue⟩ := h.due p hp
    exact ⟨l, hl, hdue.mono (w.step_log _) (List.Subset.refl _)⟩
  · intro p hp
    obtain ⟨l, id', req, hl, hasks, hjob'⟩ := h.asked p hp
    exact ⟨l, id', req, hl, hasks, w.jobs_step hjob' _⟩
  · intro lost hlost
    rw [ht', Option.some.injEq] at hlost
    rw [← hlost]
  · intro p hp
    by_cases hpk : p.2 = k
    · rw [h.eq_current ht hp hpk]
      exact .inr ⟨rfl, rfl⟩
    · rw [(hkeep hp hpk).tasks]
      rcases h.live p hp with hnone | ⟨hcur, htask⟩
      · exact .inl hnone
      · rw [hr.task] at htask
        exact .inr ⟨hcur, htask⟩
  · intro p hp body hbody l id' req hl hasks
    rcases World.answered_of_step hbody with hbody | ⟨_, _, ha, -⟩
    · rcases h.delivered hr.ne_writing hp hbody hl hasks with hsent | hunsent
      · exact .inl hsent
      · exact .inr (.inl hunsent)
    · cases ha

/-- A lost poll is unwound. -/
theorem Conn.Sound.unwind (h : conn.Sound said reader w) {k : Nat}
    (hstage : conn.stage = .losing k) {task : Task}
    (ht : w.tasks k = some task) (tick : Tick) :
    conn.Sound said reader (w.step (.move k tick)) := by
  have hat := h.stands
  rw [hstage] at hat
  obtain ⟨hk, hclient⟩ := hat
  have hnoclient := hclient task ht
  refine h.carry (w.step_jobs _) (w.step_log _) conn.inbox conn.strays conn.ended
    rfl ?_ (fun p hp => ?_) fun p hp body hbody line id req hline hasks => ?_
  · show Conn.At said reader (w.step (.move k tick)) conn conn.stage
    rw [hstage]
    refine ⟨hk, fun task' ht' => ?_⟩
    cases hprog : task.prog with
    | ret body =>
        rw [(World.tasks_ret ht hprog tick).1] at ht'
        cases ht'
    | call op f =>
        obtain ⟨new, hnew, -, hsame⟩ := World.tasks_move ht hprog tick
        rw [hnew, Option.some.injEq] at ht'
        rw [← ht', hsame, hnoclient]
  · by_cases hpk : p.2 = k
    · rw [h.eq_current ht hp hpk, hstage]
      exact .inr ⟨rfl, rfl⟩
    · rw [(World.keeps_step (h.lt hp) (fun _ ha => hpk (Act.move.inj ha).1.symm)
        (fun ha => by cases ha)).tasks]
      exact h.live p hp
  · rcases World.answered_of_step hbody with hbody | ⟨_, old, ha, hold, -, hc⟩
    · exact h.delivers p hp body hbody line id req hline hasks
    · rw [← (Act.move.inj ha).1, ht, Option.some.injEq] at hold
      rw [← hold, hnoclient] at hc
      cases hc

-- ============================================================= one step

theorem Hop.busy {stage stage' : ConnStage} (h : Hop stage stage') :
    stage'.busy = stage.busy ∧ stage'.task = stage.task
      ∧ ∀ resp, stage ≠ .writing resp true := by
  cases h <;> exact ⟨rfl, rfl, nofun⟩

/-- A change of stage leaves the connection at its line. -/
theorem Hop.at {stage stage' : ConnStage} (h : Hop stage stage')
    (hat : conn.At said reader w stage) :
    { conn with stage := stage' }.At said reader w stage' := by
  cases h with
  | event | stopWait =>
      obtain ⟨line, hline, hreact, hfresh⟩ := hat
      exact ⟨line, hline, by rw [hreact]; rfl, hfresh⟩
  | park =>
      obtain ⟨line, ev, hline, hreact, hk, ht⟩ := hat
      exact ⟨line, ev, _, hline, hreact, hk, ht, rfl, rfl⟩
  | dispatch => exact hat
  | _ => trivial

/-- Where `dispatch` starts a handler, the line asks for it. -/
theorem Conn.Sound.begins (h : conn.Sound said reader w) {id : UInt64}
    {req : Request} (hb : StartsTask conn.stage id req) :
    ∃ line, conn.heard[conn.current]? = some line
      ∧ taskOf (reader.reaction line) = some (id, req) ∧ conn.fresh := by
  have hat := h.stands
  generalize conn.stage = stage at hb hat
  cases hb with
  | handling => exact hat
  | prune =>
      obtain ⟨line, hline, hreact, hfresh⟩ := hat
      exact ⟨line, hline, by rw [hreact]; rfl, hfresh⟩

theorem StartsTask.busy {stage : ConnStage} {id : UInt64} {req : Request}
    (h : StartsTask stage id req) :
    stage.busy = true ∧ ∀ resp, stage ≠ .writing resp true := by
  cases h <;> exact ⟨rfl, nofun⟩

end record

/-- A step of a connection's task keeps its record in order. -/
theorem Worked.sound {reader : LineReader} {s : Service} {draw : Chance}
    {conn conn' : Conn} {a : Option Act}
    (h : Worked reader s draw conn conn' a) (hfiled : s.world.Filed)
    (hsaid : ∀ body answer, Plain s draw.now body answer → said body answer)
    (hs : conn.Sound said reader s.world) :
    conn'.Sound said reader (s.world.took a) := by
  have hreading : ∀ (stage : ConnStage) (inbox : List String),
      conn.stage = .reading → stage.busy = false →
      (∀ w conn, Conn.At said reader w conn stage) →
      { conn with stage, inbox }.Sound said reader s.world := by
    intro stage inbox h hbusy hat
    refine hs.restage inbox conn.strays conn.ended ?_ ?_ ?_ (hat ..)
    · rw [h, hbusy]
      rfl
    · rw [h]
      intro resp hw
      cases hw
    · rw [h]
      intro k hk
      cases hk
  cases h with
  | idle => exact hs
  | hop h =>
      obtain ⟨hbusy, htask, hwrites⟩ := h.busy
      refine hs.restage conn.inbox conn.strays conn.ended hbusy hwrites ?_
        (h.at hs.stands)
      intro k hk
      rw [htask]
      exact .inl hk
  | finish h hin hend =>
      exact hreading .returned conn.inbox h rfl fun _ _ => trivial
  | @skip line rest h hin hreact =>
      have hsound := hreading .reading rest h rfl fun _ _ => trivial
      rw [← h] at hsound
      exact hsound
  | @hear line rest stage h hin hheard =>
      have hheard' : (∃ resp, reader.reaction line = .answered resp
            ∧ stage = .writing resp false)
          ∨ ∃ id body, reader.reaction line = .dispatched id body
            ∧ stage = .dispatching id body := by
        generalize reader.reaction line = reaction at hheard
        cases hheard with
        | answered resp => exact .inl ⟨resp, rfl, rfl⟩
        | dispatched id body => exact .inr ⟨id, body, rfl, rfl⟩
      have htake := hs.take (by rw [h]; rfl) (by rw [h]; rfl) rest line stage
      rcases hheard' with ⟨resp, hreact, rfl⟩ | ⟨id, body, hreact, rfl⟩
      · refine htake rfl ⟨line, conn.heard_hear .., ?_⟩
        rw [hreact]
        exact .refused resp
      · exact htake rfl ⟨line, conn.heard_hear .., hreact, hs.fresh_hear _ _ _⟩
  | @poll line rest id ev h hin hreact =>
      have hasks : taskOf (reader.reaction line) = some (id, .stopWait ev) := by
        rw [hreact]
        rfl
      have htake := hs.take (by rw [h]; rfl) (by rw [h]; rfl) rest line
        (.handling id (.stopWait ev)) rfl
        ⟨line, conn.heard_hear .., hasks, hs.fresh_hear _ _ _⟩
      have hcur : ({ conn with inbox := rest }.hear line
          (.handling id (.stopWait ev))).current = conn.heard.length := by
        simp [Conn.hear, Conn.current]
      have hline := conn.heard_hear rest line (.handling id (.stopWait ev))
      have hbegin := htake.begin hfiled rfl (fun resp hw => by cases hw)
        (hs.fresh_hear _ _ _) hline hasks
        (.racing id s.world.jobs.length) rfl rfl
        ⟨line, ev, hline, hreact,
          List.mem_append_right _ List.mem_cons_self,
          s.world.tasks_receive _⟩
      rw [hcur] at hbegin
      exact hbegin
  | write h ok => exact hs.write h ok
  | reply h hplain => exact hs.reply h (hsaid _ _ hplain)
  | @begin id req h =>
      obtain ⟨line, hline, hasks, hfresh⟩ := hs.begins h
      exact hs.begin hfiled h.busy.1 h.busy.2 hfresh hline hasks _ rfl rfl
        ⟨line, req, _, hline, hasks,
          List.mem_append_right _ List.mem_cons_self,
          s.world.tasks_receive _, rfl⟩
  | advance h ht hprog hen => exact hs.advance h ht hprog draw.tick
  | answer h ht hprog => exact hs.answer h ht hprog draw.tick
  | @stray k line rest h hin =>
      refine hs.restage rest (conn.strays ++ [line]) conn.ended rfl
        h.ne_writing (fun k hk => .inl hk) ?_
      have hat := hs.stands
      generalize conn.stage = stage at h hat
      cases h <;> exact hat
  | lose h hin hend hawait => exact hs.lose h hawait
  | unwind h ht => exact hs.unwind h ht draw.tick
  | @lost k h ht =>
      refine hs.restage conn.inbox conn.strays conn.ended ?_ ?_ ?_ trivial
      · rw [h]
        rfl
      · rw [h]
        intro resp hw
        cases hw
      · intro j hj
        rw [h] at hj
        injection hj with hj
        exact .inr (hj ▸ ht)

/-- The task a step acts on is the connection's own, or is new. -/
theorem Worked.tasks {reader : LineReader} {s : Service} {draw : Chance}
    {conn conn' : Conn} {a : Option Act}
    (h : Worked reader s draw conn conn' a) (hs : conn.Sound said reader s.world) :
    (conn'.tasks = conn.tasks ∧ ∀ act, a = some act →
        ∃ n k, (n, k) ∈ conn.tasks
          ∧ (act = .lose k ∨ ∃ tick, act = .move k tick))
      ∨ ∃ n req, a = some (.receive req)
        ∧ conn'.tasks = conn.tasks ++ [(n, s.world.jobs.length)] := by
  cases h with
  | poll | begin => exact .inr ⟨_, _, rfl, rfl⟩
  | write h ok => cases ok <;> exact .inl ⟨rfl, fun _ hact => by cases hact⟩
  | advance h | answer h =>
      obtain ⟨_, _, _, -, -, hk, -⟩ := hs.serving h
      refine .inl ⟨rfl, fun act hact => ⟨_, _, hk, .inr ⟨draw.tick, ?_⟩⟩⟩
      exact (Option.some.inj hact).symm
  | lose h =>
      obtain ⟨_, _, _, _, -, -, hk, -⟩ := hs.raced h
      refine .inl ⟨rfl, fun act hact => ⟨_, _, hk, .inl ?_⟩⟩
      exact (Option.some.inj hact).symm
  | unwind h =>
      have hat := hs.stands
      rw [h] at hat
      refine .inl ⟨rfl, fun act hact => ⟨_, _, hat.1, .inr ⟨draw.tick, ?_⟩⟩⟩
      exact (Option.some.inj hact).symm
  | _ => exact .inl ⟨rfl, fun _ hact => by cases hact⟩

end Autofork
