/-
From a wake on record to the client that reads it.

A poll stamps or releases once at most, and then answers without another
await, so its wake can be neither cancelled nor lost (`polls_stand`).
What it answers is the payload of what it has put on record
(`handler_tells`), and only polls put anything on record
(`Telling`). A poll is the task of one line of one connection. So a
wake on record is on its way to the client that asked for it, if it has
not reached it or been found undeliverable (`wake_delivered`), and a
wake that a client reads is on record once, and is read nowhere else
(`wake_sent`).
-/
import Autofork.Proofs.Answers
import Autofork.Proofs.Drain
import Autofork.Proofs.MidTurn
import Autofork.Proofs.Stamped

namespace Autofork

open Lib

-- ================================================== what a wake tells

/-- The session an entry wakes, and what it tells it. -/
def Obs.tells : Obs → Option (String × String)
  | .issued _ session selected _ => some (session.sessionId,
      buildWakePayload session.sessionId (conversationId session)
        session.projectRoot (wakeRoots selected) (wakeHeld selected))
  | .released _ session deps => some (session.sessionId,
      buildReleasePayload session.sessionId (conversationId session)
        session.projectRoot (deps.map PendingDep.toDue))
  | _ => none

/-- Poll `k` has put on record a wake of session `a` with this payload. -/
def Told (k : Nat) (a payload : String) (l : List Obs) : Prop :=
  ∃ o ∈ l, o.waker = some k ∧ o.tells = some (a, payload)

theorem Told.grow {k : Nat} {a payload : String} :
    Prog.Stable (Told k a payload) :=
  fun _ _ hl ⟨o, ho, hk⟩ => ⟨o, hl.subset ho, hk⟩

theorem wokenBy_of_waker {k : Nat} {o : Obs} (h : o.waker = some k) :
    WokenBy k o := by
  cases o with
  | issued | released => exact Option.some.inj h
  | _ => cases h

theorem settledBy_of_waker {k : Nat} {o : Obs} (h : o.waker = some k) :
    SettledBy k o := by
  cases o with
  | issued | released => exact Option.some.inj h
  | _ => cases h

/-- The contract that every operation is on record, and a snapshot is of
the session it was taken of. -/
def noting (k : Nat) : Prog.Contract Op Op.Res Obs where
  pre _ _ := True
  post _ op r l := (∀ o, op.deed k r = some o → o ∈ l) ∧ match op, r with
    | .snapshot sessionId, r => ∀ x, r = some x → x.sessionId = sessionId
    | _, _ => True

theorem exec_noting {k : Nat} {op : Op} {tick : Tick} {d d' : Daemon}
    {r : op.Res} (h : exec k op tick d = some (d', r)) (l : List Obs) :
    (noting k).post l op r d'.log := by
  refine ⟨(exec_deed h).1, ?_⟩
  cases op with
  | snapshot sessionId =>
      intro x hx
      subst hx
      simp only [exec] at h
      split at h
      next session hsession =>
        simp only [Option.some.injEq, Prod.mk.injEq] at h
        rw [← h.2]
        exact Store.sessionId_of_getSession hsession
      next => simp at h
  | _ => trivial

-- =================================================== what a poll answers

/-- Only a poll answers a wake, and that is one on record for its
session, and carries the marker. -/
def Tells (k : Nat) (job : Job) (l : List Obs) (body : ResponseBody) : Prop :=
  ∀ payload, body = .wake payload → contains payload wakeMarker = true
    ∧ ∃ ev, job = .request (.stopWait ev) ∧ Told k ev.sessionId payload l

theorem tells_stable (k : Nat) (job : Job) (body : ResponseBody) :
    Prog.Stable (Tells k job · body) := by
  intro l l' hl h payload hb
  obtain ⟨hmarker, ev, hjob, htold⟩ := h payload hb
  exact ⟨hmarker, ev, hjob, htold.grow hl⟩

/-- A payload is that of the stamping before it. -/
private theorem buildWake_tells (k : Nat) (session : SessionRow)
    (selected : List SelectedFork) (l : List Obs) :
    Prog.Outline .free (noting k)
      (fun l r => ∀ payload, r = some payload →
        contains payload wakeMarker = true
          ∧ Told k session.sessionId payload l)
      (buildWake session selected) l := by
  unfold buildWake
  split
  · exact fun _ h => by cases h
  next hempty =>
    have hne : selected ≠ [] := by simpa using hempty
    refine ⟨fun _ => trivial, fun _ _ => ⟨trivial, fun t l _ _ => ?_⟩⟩
    refine ⟨fun _ => trivial, fun _ _ => ⟨trivial, fun _ l _ hpost => ?_⟩⟩
    refine ⟨fun _ => trivial, fun _ hd => ⟨trivial, fun _ _ hl _ payload hr => ?_⟩⟩
    cases hr
    exact ⟨buildWakePayload_marker (wakeRoots_ne_nil hne),
      Told.grow (hd.suffix.trans hl) ⟨_, hpost.1 _ rfl, rfl, rfl⟩⟩

/-- A release payload is that of the deletion before it. -/
private theorem releaseDue_tells (k : Nat) (session : SessionRow)
    (l : List Obs) :
    Prog.Outline .free (noting k)
      (fun l r => ∀ payload, r = some payload →
        contains payload wakeMarker = true
          ∧ Told k session.sessionId payload l)
      (releaseDue session) l := by
  refine ⟨fun _ => trivial, fun _ _ => ⟨trivial, fun released l _ _ => ?_⟩⟩
  show Prog.Outline .free (noting k) _
    (if List.isEmpty released then pure none else _) l
  split
  · exact fun _ h => by cases h
  next hempty =>
    have hne : released.map PendingDep.toDue ≠ [] := by simpa using hempty
    refine ⟨fun _ => trivial, fun _ _ => ⟨trivial, fun _ l _ hpost => ?_⟩⟩
    refine ⟨fun _ => trivial, fun _ hd => ⟨trivial, fun _ _ hl _ payload hr => ?_⟩⟩
    cases hr
    exact ⟨buildReleasePayload_marker hne,
      Told.grow (hd.suffix.trans hl) ⟨_, hpost.1 _ rfl, rfl, rfl⟩⟩

-- ------------------------------------------------- the other handlers

/-- A quiet handler that answers no wake. -/
private theorem Quiet.tells {job : Job} {p : Handler ResponseBody}
    (hp : Quiet p) (hr : p.Returns fun body => ¬IsWake body) (k : Nat)
    (l : List Obs) :
    Prog.Outline .free (noting k) (Tells k job) p l :=
  ((carried_free (B := fun _ => True) (fun _ _ _ _ => trivial)
      fun _ _ _ => trivial).outline hp hr trivial).mono
    fun _ _ _ hb payload h => absurd ⟨payload, h⟩ hb.2

theorem handler_tells (k : Nat) (job : Job) (l : List Obs) :
    Prog.Outline .free (noting k) (Tells k job) job.handler l := by
  cases job with
  | request req =>
      cases req with
      | stopWait ev =>
          refine handleStopWait_outline (C := noting k)
            (B := fun session _ => session.sessionId = ev.sessionId)
            (fun _ _ _ _ h => h) (tells_stable k (.request (.stopWait ev)))
            (fun _ _ h => by cases h) (fun _ _ _ => trivial) ev
            (fun _ _ _ hpost session hr => hpost.2 session hr) ?_ ?_ l
          · intro session l ha
            refine (releaseDue_tells k session l).mono ?_
            intro l' r _ hr payload hsome payload' hb
            cases hb
            obtain ⟨hmarker, htold⟩ := hr payload hsome
            exact ⟨hmarker, ev, rfl, ha ▸ htold⟩
          · intro session cfg moments selected l ha hsel
            refine (buildWake_tells k session selected l).mono ?_
            intro l' r _ hr payload hsome payload' hb
            cases hb
            obtain ⟨hmarker, htold⟩ := hr payload hsome
            exact ⟨hmarker, ev, rfl, ha ▸ htold⟩
      | event ev => exact (quiet_handleEvent ev).tells (returns_handleEvent ev) k l
      | prune => exact quiet_handlePrune.tells returns_handlePrune k l
  | reap =>
      exact quiet_sessionReaper.tells
        (Prog.Returns.after fun cutoffs => returns_closeAll cutoffs) k l
  | grace sessionId gen =>
      exact (quiet_graceClose sessionId gen).tells
        (returns_graceClose sessionId gen) k l

-- ========================================================== on all runs

/-- What is on record of wakes. -/
structure Telling (w : World) : Prop where
  outlined : w.Outlined .free noting Tells
  answered : w.Answered Tells
  /-- Who does not poll does nothing of the kind. -/
  quiet : ∀ k task, w.tasks k = some task →
    (∀ ev, task.job ≠ .request (.stopWait ev)) → Quiet task.prog
  polls : ∀ o ∈ w.daemon.log, ∀ k, o.waker = some k →
    ∃ ev, w.jobs[k]? = some (.request (.stopWait ev))

theorem quiet_handler {job : Job} (h : ∀ ev, job ≠ .request (.stopWait ev)) :
    Quiet job.handler := by
  cases job with
  | request req =>
      cases req with
      | stopWait ev => exact absurd rfl (h ev)
      | event ev => exact quiet_handleEvent ev
      | prune => exact quiet_handlePrune
  | reap => exact quiet_sessionReaper
  | grace sessionId gen => exact quiet_graceClose sessionId gen

/-- An entry that wakes is the deed of an operation that does. -/
private theorem deed_waker {j k : Nat} {op : Op} {r : op.Res} {o : Obs}
    (h : op.deed j r = some o) (ho : o.waker = some k) :
    j = k ∧ op.wakes = true := by
  cases op with
  | write x => cases x <;> cases h <;> cases ho <;> exact ⟨rfl, rfl⟩
  | snapshot s => cases r <;> cases h; cases ho
  | _ => cases h <;> cases ho

private theorem quiet_tasks_step {w : World} (h : Telling w) {a : Act} {k : Nat}
    {task : Task} (ht : (w.step a).tasks k = some task)
    (hjob : ∀ ev, task.job ≠ .request (.stopWait ev)) : Quiet task.prog := by
  rcases World.step_tasks ht with hold | ⟨job, client, -, -, -, rfl⟩
    | ⟨old, op, f, tick, d, r, -, hold, hprog, -, -, rfl⟩
    | ⟨ev, started, op, f, -, -, -, rfl⟩
  · exact h.quiet k task hold hjob
  · exact quiet_handler hjob
  · have hq := h.quiet k old hold hjob
    rw [hprog] at hq
    exact hq.2 r
  · exact absurd rfl (hjob ev)

private theorem polls_step {w : World} (h : Telling w) (a : Act) :
    ∀ o ∈ (w.step a).daemon.log, ∀ k, o.waker = some k →
      ∃ ev, (w.step a).jobs[k]? = some (.request (.stopWait ev)) := by
  intro o ho k hk
  have hkeep : o ∈ w.daemon.log →
      ∃ ev, (w.step a).jobs[k]? = some (.request (.stopWait ev)) := by
    intro hold
    obtain ⟨ev, hjob⟩ := h.polls o hold k hk
    exact ⟨ev, w.jobs_step hjob a⟩
  rcases w.step_cases a with
    ⟨j, task, op, f, tick, d, r, -, ht, hprog, -, hex, heq⟩
    | ⟨j, tick, task, body, -, -, -, heq⟩ | ⟨disk, graceTimers, heq, -⟩
  · rw [heq] at ho
    rcases (exec_deed hex).2 o ho with hold | hdeed | haside
    · exact hkeep hold
    · obtain ⟨rfl, hwakes⟩ := deed_waker hdeed hk
      -- the task is no quiet one, so it polls
      have hpoll : ∃ ev, task.job = .request (.stopWait ev) := by
        apply Classical.byContradiction
        intro hno
        have hq := h.quiet j task ht fun ev hjob => hno ⟨ev, hjob⟩
        rw [hprog] at hq
        rw [hq.1.1] at hwakes
        cases hwakes
      obtain ⟨ev, hjob⟩ := hpoll
      refine ⟨ev, w.jobs_step ?_ a⟩
      rw [← hjob]
      exact h.outlined.numbered j task ht
    · cases o with
      | marked | closed => cases hk
      | _ => cases haside
  · rw [heq] at ho
    dsimp only at ho
    split at ho
    · rcases List.mem_cons.1 ho with rfl | hold
      · cases hk
      · exact hkeep hold
    · exact hkeep ho
  · rw [heq] at ho
    exact hkeep ho

theorem telling_step (w : World) (a : Act) (h : Telling w) :
    Telling (w.step a) where
  outlined := h.outlined.step_free (fun _ _ _ _ => trivial)
    (fun k task _ l => handler_tells k task.job l)
    fun _ _ _ _ _ _ _ hex => exec_noting hex w.daemon.log
  answered := World.answered_step tells_stable h.outlined h.answered
  quiet _ _ ht hjob := quiet_tasks_step h ht hjob
  polls := polls_step h a

theorem telling_after (disk : Disk) (as : List Act) :
    Telling (World.after disk as) := by
  refine run_invariant (P := Telling) telling_step ?_ as
  refine ⟨World.outlined_init disk trivial, World.answered_init _ disk, ?_, ?_⟩
  · intro k task h
    cases h
  · intro o ho
    cases ho

-- ======================================================= to the clients

/-- A line asks for a poll only to have it raced against its
connection. -/
theorem parked_of_taskOf {reader : LineReader} {line : String} {id : UInt64}
    {ev : Event} (h : taskOf (reader.reaction line) = some (id, .stopWait ev)) :
    reader.reaction line = .parked id ev := by
  have hbody : ∀ req : Protocol.Request,
      taskOf req.reaction = some (id, .stopWait ev) →
      req.reaction = .parked id ev := by
    intro req hreq
    unfold Protocol.Request.reaction at hreq ⊢
    split at hreq
    next => cases hreq
    next hproto =>
      rw [if_neg hproto]
      cases hb : req.body with
      | stopWait ev' =>
          rw [hb] at hreq
          cases hreq
          rfl
      | _ => rw [hb] at hreq; cases hreq
  unfold LineReader.reaction Protocol.handleLine at h ⊢
  split at h
  next => cases h
  next hblank =>
    rw [if_neg hblank]
    cases hreq : Protocol.decode Protocol.request reader.parse line with
    | none => rw [hreq] at h; cases h
    | some req =>
        rw [hreq] at h
        exact hbody req h

/-- What is refused is no wake. -/
theorem ne_wake_of_answered {reader : LineReader} {line : String}
    {resp : Protocol.Response} (h : reader.reaction line = .answered resp)
    (payload : String) : resp.body ≠ .wake payload := by
  unfold LineReader.reaction Protocol.handleLine at h
  split at h
  next => cases h
  next =>
    split at h
    next =>
      cases h
      exact fun hb => by cases hb
    next req hreq =>
      unfold Protocol.Request.reaction at h
      split at h
      next =>
        cases h
        exact fun hb => by cases hb
      next => split at h <;> cases h

namespace Service

variable {reader : LineReader} {boot : Boot} {ms : List Move}

theorem telling_after (reader : LineReader) (boot : Boot) (ms : List Move) :
    Telling (after reader boot ms).world := by
  obtain ⟨as, hworld, -⟩ := world_after reader boot ms
  rw [hworld]
  exact Autofork.telling_after _ as

theorem polls_stand (reader : LineReader) (boot : Boot) (ms : List Move) :
    PollsStand (after reader boot ms).world := by
  obtain ⟨as, hworld, -⟩ := world_after reader boot ms
  rw [hworld]
  exact Autofork.polls_stand _ as

/-- A poll is the task of one line, which asks for it. -/
theorem polled {k : Nat} {ev : Event}
    (hjob : (after reader boot ms).world.jobs[k]?
      = some (.request (.stopWait ev))) :
    ∃ (c : Nat) (conn : Conn) (n : Nat) (line : String) (id : UInt64),
      (after reader boot ms).conns[c]? = some conn ∧ (n, k) ∈ conn.tasks
        ∧ conn.heard[n]? = some line ∧ reader.reaction line = .parked id ev := by
  have h := serviced_after reader boot ms
  obtain ⟨c, conn, n, hc, hn⟩ := h.owned k _ hjob
  obtain ⟨line, id, req, hline, hasks, hreq⟩ :=
    (h.sound c conn hc).asked (n, k) hn
  rw [hjob, Option.some.injEq, Job.request.injEq] at hreq
  subst hreq
  exact ⟨c, conn, n, line, id, hc, hn, hline, parked_of_taskOf hasks⟩

/-- A poll that has a wake on record has one. -/
theorem told_once {k : Nat} {o : Obs}
    {ev : Event} (hjob : (after reader boot ms).world.jobs[k]?
      = some (.request (.stopWait ev)))
    (ho : o ∈ (after reader boot ms).world.daemon.log)
    (hk : o.waker = some k) :
    AtMostOne (WokenBy k) (after reader boot ms).world.daemon.log := by
  have hstands := (polls_stand reader boot ms).stands k ev hjob
  cases ht : (after reader boot ms).world.tasks k with
  | none =>
      rw [ht] at hstands
      rcases hstands with hno | ⟨hone, -⟩
      · exact absurd (settledBy_of_waker hk) (hno o ho)
      · exact hone.1
  | some task =>
      rw [ht] at hstands
      rcases hstands with ⟨hno, -⟩ | ⟨hone, -⟩
      · exact absurd (settledBy_of_waker hk) (hno o ho)
      · exact hone.1

/-- Where a wake on record is. -/
theorem on_its_way {k : Nat} {o : Obs}
    (ho : o ∈ (after reader boot ms).world.daemon.log)
    (hk : o.waker = some k) :
    ∃ (c : Nat) (conn : Conn) (n : Nat) (line : String) (id : UInt64)
      (ev : Event), (after reader boot ms).conns[c]? = some conn
        ∧ (n, k) ∈ conn.tasks ∧ conn.heard[n]? = some line
        ∧ reader.reaction line = .parked id ev
        ∧ ((∃ payload, o.tells = some (ev.sessionId, payload)
            ∧ conn.Delivers n (Protocol.reply id (.wake payload)))
          ∨ (WaitsFor conn.stage id k ∧ n = conn.current
            ∧ ∃ task, (after reader boot ms).world.tasks k = some task
              ∧ Tame task.prog ∧ task.prog.Returns IsWake)) := by
  have htelling := telling_after reader boot ms
  obtain ⟨ev, hjob⟩ := htelling.polls o ho k hk
  obtain ⟨c, conn, n, line, id, hc, hn, hline, hreact⟩ := polled hjob
  have hsound := (serviced_after reader boot ms).sound c conn hc
  have hasks : taskOf (reader.reaction line) = some (id, .stopWait ev) := by
    rw [hreact]
    rfl
  have hstands := (polls_stand reader boot ms).stands k ev hjob
  refine ⟨c, conn, n, line, id, ev, hc, hn, hline, hreact, ?_⟩
  cases ht : (after reader boot ms).world.tasks k with
  | none =>
      rw [ht] at hstands
      refine .inl ?_
      rcases hstands with hno | ⟨-, payload, hanswered⟩
      · exact absurd (settledBy_of_waker hk) (hno o ho)
      · obtain ⟨job, hjob', htells⟩ := htelling.answered k _ hanswered
        obtain ⟨-, ev', rfl, o', ho', hk', htells'⟩ := htells payload rfl
        rw [hjob, Option.some.injEq, Job.request.injEq,
          Request.stopWait.injEq] at hjob'
        subst hjob'
        rw [(told_once hjob ho hk).eq ho' ho (wokenBy_of_waker hk')
          (wokenBy_of_waker hk)] at htells'
        exact ⟨payload, htells',
          hsound.delivers (n, k) hn _ hanswered line id _ hline hasks⟩
  | some task =>
      rw [ht] at hstands
      refine .inr ?_
      rcases hstands with ⟨hno, -⟩ | ⟨-, hstarted, hclient, htame, hreturns⟩
      · exact absurd (settledBy_of_waker hk) (hno o ho)
      rcases hsound.live (n, k) hn with hnone | ⟨hcur, htask⟩
      · rw [ht] at hnone
        cases hnone
      · refine ⟨?_, hcur, task, rfl, htame, hreturns⟩
        have hline' : conn.heard[conn.current]? = some line := by
          rw [← hcur]
          exact hline
        have hat := hsound.stands
        revert hat htask
        cases conn.stage <;> intro htask hat <;> cases htask
        · obtain ⟨line', req, _, hsame, hasks', -⟩ := hat
          rw [hline', Option.some.injEq] at hsame
          subst hsame
          rw [hasks, Option.some.injEq, Prod.mk.injEq] at hasks'
          obtain ⟨rfl, -⟩ := hasks'
          exact .running id k
        · -- a poll that is raced has not been looked at
          obtain ⟨_, _, -, -, -, hsame⟩ := hat
          rw [ht, Option.some.injEq] at hsame
          rw [hsame] at hstarted
          cases hstarted
        · obtain ⟨line', ev', _, hsame, hreact', -⟩ := hat
          rw [hline', Option.some.injEq] at hsame
          subst hsame
          rw [hreact, Protocol.Reaction.parked.injEq] at hreact'
          obtain ⟨rfl, -⟩ := hreact'
          exact .parked id k
        · rw [hat.2 task ht] at hclient
          cases hclient

/-- What a client has been written of a wake. -/
theorem wake_of_sent {c : Nat} {conn : Conn}
    (hc : (after reader boot ms).conns[c]? = some conn)
    {n : Nat} {resp : Protocol.Response} {payload : String}
    (hsent : (n, resp) ∈ conn.sent) (hwake : resp.body = .wake payload) :
    ∃ (line : String) (id : UInt64) (ev : Event) (k : Nat) (o : Obs),
      contains payload wakeMarker = true
        ∧ conn.heard[n]? = some line ∧ reader.reaction line = .parked id ev
        ∧ resp = Protocol.reply id (.wake payload) ∧ (n, k) ∈ conn.tasks
        ∧ o ∈ (after reader boot ms).world.daemon.log ∧ o.waker = some k
        ∧ o.tells = some (ev.sessionId, payload)
        ∧ AtMostOne (WokenBy k) (after reader boot ms).world.daemon.log
        ∧ ∀ (c' : Nat) (conn' : Conn) (n' : Nat),
          (after reader boot ms).conns[c']? = some conn' →
          (n', k) ∈ conn'.tasks → c' = c ∧ n' = n := by
  have h := serviced_after reader boot ms
  have htelling := telling_after reader boot ms
  obtain ⟨line, hline, hdue⟩ := (h.sound c conn hc).due (n, resp) hsent
  dsimp only at hline hdue
  generalize hreact : reader.reaction line = reaction at hdue
  cases hdue with
  | refused => exact absurd hwake (ne_wake_of_answered hreact payload)
  | plain id hplain =>
      obtain ⟨_, _, -, hplain⟩ := hplain
      cases hplain <;> cases hwake
  | @handled _ id req k body hasks htask hlog =>
      obtain rfl : body = .wake payload := by
        cases body <;> cases hwake
        rfl
      obtain ⟨job, hjob, htells⟩ := htelling.answered k _ hlog
      obtain ⟨hmarker, ev, rfl, o, ho, hk, htells⟩ := htells payload rfl
      obtain ⟨line', id', req', hline', hasks', hreq⟩ :=
        (h.sound c conn hc).asked (n, k) htask
      rw [hline, Option.some.injEq] at hline'
      subst hline'
      rw [hreact, hasks, Option.some.injEq, Prod.mk.injEq] at hasks'
      obtain ⟨rfl, rfl⟩ := hasks'
      rw [hjob, Option.some.injEq, Job.request.injEq] at hreq
      subst hreq
      have hparked : reader.reaction line = .parked id ev :=
        parked_of_taskOf (by rw [hreact]; exact hasks)
      refine ⟨line, id, ev, k, o, hmarker, hline, hparked, rfl, htask, ho, hk,
        htells, told_once hjob ho hk, ?_⟩
      intro c' conn' n' hc' hn'
      obtain ⟨rfl, hp⟩ := h.apart c c' conn conn' (n, k) (n', k) hc hc' htask
        hn' rfl
      exact ⟨rfl, congrArg Prod.fst hp.symm⟩

end Service

variable {reader : LineReader} {boot : Boot} {ms : List Move}

/-- A wake on record is on its way to the client that asked for it: it
has been written to its connection, or could not be, or is about to be,
or the poll the connection waits for returns it, with no await in
between. -/
theorem wake_delivered {k : Nat} {o : Obs}
    (ho : o ∈ (Service.after reader boot ms).world.daemon.log)
    (hk : o.waker = some k) :
    ∃ (c : Nat) (conn : Conn) (n : Nat) (line : String) (id : UInt64)
      (ev : Event), (Service.after reader boot ms).conns[c]? = some conn
        ∧ (n, k) ∈ conn.tasks ∧ conn.heard[n]? = some line
        ∧ reader.reaction line = .parked id ev
        ∧ ((∃ payload, o.tells = some (ev.sessionId, payload)
            ∧ conn.Delivers n (Protocol.reply id (.wake payload)))
          ∨ (WaitsFor conn.stage id k ∧ n = conn.current
            ∧ ∃ task, (Service.after reader boot ms).world.tasks k = some task
              ∧ Tame task.prog ∧ task.prog.Returns IsWake)) :=
  Service.on_its_way ho hk

/-- A minute into the pause the poll's wake is on record, and reaches its
client. -/
theorem wake_delivered_woken :
    ∃ o k, o ∈ (Service.after .polling .minutely woken).world.daemon.log
      ∧ o.waker = some k ∧ ∃ (c : Nat) (conn : Conn),
        (Service.after .polling .minutely woken).conns[c]? = some conn
          ∧ ∃ n, (n, k) ∈ conn.tasks := by
  have hrun : HasWake 0
      (Service.after .polling .minutely woken).world.daemon.log := by
    decide +kernel
  obtain ⟨o, ho, hk⟩ := hrun
  obtain ⟨c, conn, n, -, -, -, hc, hn, -⟩ := wake_delivered ho hk
  exact ⟨o, 0, ho, hk, c, conn, hc, n, hn⟩

/-- A wake that a connection's client has been written is that of its
line, on record once, for the session the line names, and written to no
other line or connection. -/
theorem wake_sent {c : Nat} {conn : Conn}
    (hc : (Service.after reader boot ms).conns[c]? = some conn)
    {n : Nat} {resp : Protocol.Response} {payload : String}
    (hsent : (n, resp) ∈ conn.sent) (hwake : resp.body = .wake payload) :
    ∃ (line : String) (id : UInt64) (ev : Event) (k : Nat) (o : Obs),
      conn.heard[n]? = some line ∧ reader.reaction line = .parked id ev
        ∧ resp = Protocol.reply id (.wake payload) ∧ (n, k) ∈ conn.tasks
        ∧ o ∈ (Service.after reader boot ms).world.daemon.log ∧ o.waker = some k
        ∧ o.tells = some (ev.sessionId, payload)
        ∧ AtMostOne (WokenBy k)
          (Service.after reader boot ms).world.daemon.log
        ∧ ∀ (c' : Nat) (conn' : Conn) (n' : Nat),
          (Service.after reader boot ms).conns[c']? = some conn' →
          (n', k) ∈ conn'.tasks → c' = c ∧ n' = n := by
  obtain ⟨line, id, ev, k, o, -, h⟩ := Service.wake_of_sent hc hsent hwake
  exact ⟨line, id, ev, k, o, h⟩

/-- The answer the client reads is that wake. -/
theorem wake_sent_woken :
    ∃ conn, (Service.after .polling .minutely woken).conns[0]? = some conn
      ∧ ∃ k o, (0, k) ∈ conn.tasks ∧ o.waker = some k
        ∧ o ∈ (Service.after .polling .minutely woken).world.daemon.log := by
  have hrun : (Service.after .polling .minutely woken).conns[0]?.map
      (fun conn => (conn.sent.head?.map fun p => (p.1, p.2.body.payload.isSome)))
        = some (some (0, true)) := by decide +kernel
  obtain ⟨conn, hc, hsent⟩ := Option.map_eq_some_iff.1 hrun
  obtain ⟨⟨n, resp⟩, hhead, hwake⟩ := Option.map_eq_some_iff.1 hsent
  obtain ⟨rfl, hwake⟩ := Prod.mk.inj hwake
  obtain ⟨payload, hpayload⟩ := Option.isSome_iff_exists.1 hwake
  obtain ⟨_, _, _, k, o, -, -, -, hn, ho, hk, -⟩ :=
    wake_sent hc (List.mem_of_mem_head? hhead)
      (Protocol.ResponseBody.payload_eq_some hpayload)
  exact ⟨conn, hc, k, o, hn, hk, ho⟩

end Autofork
