/-
What one move of the serving process can do, and what it makes of the
daemon's world.

`Worked` lists the steps of a connection's task: what becomes of the
connection, and which action of the world goes with it. `step_cases`
says of a move that it is such a step, or what it does from outside. Two
things are read off it at once. A run of the service is, for the world,
a run of its own (`world_run`), so whatever holds over every
interleaving holds of the daemon as it is served. And `connections`
counts what it should (`counted_after`).
-/
import Autofork.Service
import Autofork.Proofs.Steps

namespace Autofork

open Lib

-- ================================================= one connection's step

/-- A change of stage that reads, writes and starts nothing. -/
inductive Hop : ConnStage → ConnStage → Prop
  | count : Hop .accepted .counted
  | greet : Hop .counted .reading
  | dispatch (id : UInt64) (body : Protocol.RequestBody) :
      Hop (.dispatching id body) (.dispatched id body)
  | event (id : UInt64) (ev : Event) :
      Hop (.dispatched id (.event ev)) (.handling id (.event ev))
  | stopWait (id : UInt64) (ev : Event) :
      Hop (.dispatched id (.stopWait ev)) (.handling id (.stopWait ev))
  | park (id : UInt64) (k : Nat) : Hop (.racing id k) (.parked id k)
  | leave : Hop .returned .uncounted
  | close : Hop .uncounted .over

/-- What a line that starts no task leads to. -/
inductive Heard : Protocol.Reaction → ConnStage → Prop
  | answered (resp : Protocol.Response) :
      Heard (.answered resp) (.writing resp false)
  | dispatched (id : UInt64) (body : Protocol.RequestBody) :
      Heard (.dispatched id body) (.dispatching id body)

/-- The answers of `dispatch` that take no handler: what the daemon says
of itself, at this clock reading. -/
inductive Plain (s : Service) (now : Int) :
    Protocol.RequestBody → Protocol.ResponseBody → Prop
  | hello (version : String) :
      Plain s now (.hello version) (.helloInfo packageVersion)
  | status : Plain s now .status
      (.statusInfo (statusAt s.world.daemon s.pid now).toWire)
  | listForks (projectRoot cwd : Path) :
      Plain s now (.listForks projectRoot cwd)
        (.forkList (listForks s.files cwd s.userForksRoot))
  | shutdown (drain : Bool) : Plain s now (.shutdown drain) .ack

/-- `dispatch` is about to start a handler. -/
inductive StartsTask : ConnStage → UInt64 → Request → Prop
  | handling (id : UInt64) (req : Request) : StartsTask (.handling id req) id req
  | prune (id : UInt64) : StartsTask (.dispatched id .prune) id .prune

/-- The connection waits for task `k`, whose answer goes out under
`id`. -/
inductive WaitsFor : ConnStage → UInt64 → Nat → Prop
  | running (id : UInt64) (k : Nat) : WaitsFor (.running id k) id k
  | parked (id : UInt64) (k : Nat) : WaitsFor (.parked id k) id k

/-- The connection races the poll `k`. -/
inductive Races : ConnStage → Nat → Prop
  | racing (id : UInt64) (k : Nat) : Races (.racing id k) k
  | parked (id : UInt64) (k : Nat) : Races (.parked id k) k

/-- What a step makes of `connections`. -/
def ConnStage.recount (n : Nat) : ConnStage → Nat
  | .accepted => n + 1
  | .returned => fetchSub n
  | _ => n

/-- The step is, or begins with, a `touch_busy`. -/
def ConnStage.touches (draw : Chance) : ConnStage → Bool
  | .counted | .dispatching .. | .handling .. | .uncounted => true
  | .racing .. => !draw.reads
  | _ => false

/-- The steps of a connection's task: what becomes of the connection,
and which action the world takes with it. -/
inductive Worked (reader : LineReader) (s : Service) (draw : Chance) (conn : Conn) :
    Conn → Option Act → Prop
  | idle (h : ∀ n, conn.stage.recount n = n) :
      Worked reader s draw conn conn none
  | hop {stage : ConnStage} (h : Hop conn.stage stage) :
      Worked reader s draw conn { conn with stage } none
  | finish (h : conn.stage = .reading) (hin : conn.inbox = [])
      (hend : conn.ended = true) :
      Worked reader s draw conn { conn with stage := .returned } none
  | skip {line : String} {rest : List String} (h : conn.stage = .reading)
      (hin : conn.inbox = line :: rest)
      (hreact : reader.reaction line = .skipped) :
      Worked reader s draw conn { conn with inbox := rest } none
  | hear {line : String} {rest : List String} {stage : ConnStage}
      (h : conn.stage = .reading) (hin : conn.inbox = line :: rest)
      (hheard : Heard (reader.reaction line) stage) :
      Worked reader s draw conn ({ conn with inbox := rest }.hear line stage) none
  | poll {line : String} {rest : List String} {id : UInt64} {ev : Event}
      (h : conn.stage = .reading) (hin : conn.inbox = line :: rest)
      (hreact : reader.reaction line = .parked id ev) :
      Worked reader s draw conn
        { conn with
          inbox := rest
          heard := conn.heard ++ [line]
          tasks := conn.tasks ++ [(conn.heard.length, s.world.jobs.length)]
          stage := .racing id s.world.jobs.length }
        (some (.receive (.stopWait ev)))
  | write {resp : Protocol.Response} {must : Bool}
      (h : conn.stage = .writing resp must) (ok : Bool) :
      Worked reader s draw conn (conn.write resp must ok) none
  | reply {id : UInt64} {body : Protocol.RequestBody}
      {answer : Protocol.ResponseBody} (h : conn.stage = .dispatched id body)
      (hplain : Plain s draw.now body answer) :
      Worked reader s draw conn (conn.answer id answer) none
  | begin {id : UInt64} {req : Request} (h : StartsTask conn.stage id req) :
      Worked reader s draw conn
        { conn with
          tasks := conn.tasks ++ [(conn.current, s.world.jobs.length)]
          stage := .running id s.world.jobs.length }
        (some (.receive req))
  | advance {id : UInt64} {k : Nat} {task : Task} {op : Op}
      {f : op.Res → Handler ResponseBody} (h : WaitsFor conn.stage id k)
      (ht : s.world.tasks k = some task) (hprog : task.prog = .call op f)
      (hen : s.enabled k draw.tick = true) :
      Worked reader s draw conn conn (some (.move k draw.tick))
  | answer {id : UInt64} {k : Nat} {task : Task} {body : ResponseBody}
      (h : WaitsFor conn.stage id k) (ht : s.world.tasks k = some task)
      (hprog : task.prog = .ret body) :
      Worked reader s draw conn (conn.answer id body.toWire)
        (some (.move k draw.tick))
  | stray {k : Nat} {line : String} {rest : List String}
      (h : Races conn.stage k) (hin : conn.inbox = line :: rest) :
      Worked reader s draw conn
        { conn with inbox := rest, strays := conn.strays ++ [line] } none
  | lose {k : Nat} (h : Races conn.stage k) (hin : conn.inbox = [])
      (hend : conn.ended = true)
      (hawait : (∃ id, conn.stage = .racing id k) ∨ s.world.awaiting k = true) :
      Worked reader s draw conn
        { conn with
          lost := conn.lost ++ [conn.current]
          stage := .losing k }
        (some (.lose k))
  | unwind {k : Nat} {task : Task} (h : conn.stage = .losing k)
      (ht : s.world.tasks k = some task) :
      Worked reader s draw conn conn (some (.move k draw.tick))
  | lost {k : Nat} (h : conn.stage = .losing k)
      (ht : s.world.tasks k = none) :
      Worked reader s draw conn { conn with stage := .returned } none

/-- The world, after the action that goes with a step. -/
def World.took (w : World) : Option Act → World
  | some a => w.step a
  | none => w

theorem Races.recount {stage : ConnStage} {k : Nat} (h : Races stage k)
    (n : Nat) : stage.recount n = n := by
  cases h <;> rfl

theorem Races.touches {stage : ConnStage} {k : Nat} (h : Races stage k)
    {draw : Chance} (hreads : draw.reads = true) :
    stage.touches draw = false := by
  cases h <;> simp [ConnStage.touches, hreads]

theorem WaitsFor.recount {stage : ConnStage} {id : UInt64} {k : Nat}
    (h : WaitsFor stage id k) (n : Nat) : stage.recount n = n := by
  cases h <;> rfl

theorem WaitsFor.touches {stage : ConnStage} {id : UInt64} {k : Nat}
    (h : WaitsFor stage id k) (draw : Chance) : stage.touches draw = false := by
  cases h <;> rfl

/-- A step counts the connection when it becomes open, and no longer when
it stops to be. -/
theorem Worked.recount {reader : LineReader} {s : Service} {draw : Chance}
    {conn conn' : Conn} {a : Option Act} (h : Worked reader s draw conn conn' a) {n : Nat}
    (hn : conn.stage.counts = true → 0 < n) :
    conn.stage.recount n + conn.stage.counts.toNat
      = n + conn'.stage.counts.toNat := by
  cases h with
  | idle h => rw [h]
  | hop h =>
      generalize conn.stage = stage at h hn
      cases h with
      | leave =>
          have hpos := hn rfl
          simp only [ConnStage.recount, fetchSub, ConnStage.counts, Bool.toNat_true,
            Bool.toNat_false]
          rw [if_neg (by omega)]
          omega
      | _ => rfl
  | @write resp must h ok =>
      rw [h]
      cases ok with
      | true => rfl
      | false => cases must <;> rfl
  | @hear line rest stage h hin hheard =>
      rw [h]
      generalize reader.reaction line = reaction at hheard
      cases hheard <;> rfl
  | begin h =>
      generalize conn.stage = stage at h
      cases h <;> rfl
  | answer h =>
      generalize conn.stage = stage at h
      cases h <;> rfl
  | advance h => rw [h.recount]
  | stray h => rw [h.recount]
  | lose h =>
      generalize conn.stage = stage at h
      cases h <;> rfl
  | finish h | skip h | poll h | reply h | unwind h | lost h => rw [h]; rfl

theorem World.step_move_none {w : World} {k : Nat} (h : w.tasks k = none)
    (tick : Tick) : w.step (.move k tick) = w := by
  simp [step, move, h]

namespace Service

variable {reader : LineReader}

-- ======================================================== the small steps

@[simp] theorem put_conns (s : Service) (c : Nat) (conn : Conn) :
    (s.put c conn).conns = s.conns.set c conn := rfl

@[simp] theorem put_world (s : Service) (c : Nat) (conn : Conn) :
    (s.put c conn).world = s.world := rfl

@[simp] theorem put_connections (s : Service) (c : Nat) (conn : Conn) :
    (s.put c conn).connections = s.connections := rfl

@[simp] theorem put_lastBusy (s : Service) (c : Nat) (conn : Conn) :
    (s.put c conn).lastBusy = s.lastBusy := rfl

@[simp] theorem touchBusy_conns (s : Service) (now : Int) :
    (s.touchBusy now).conns = s.conns := rfl

@[simp] theorem touchBusy_world (s : Service) (now : Int) :
    (s.touchBusy now).world = s.world := rfl

@[simp] theorem advance_conns (s : Service) (k : Nat) (tick : Tick) :
    (s.advance k tick).conns = s.conns := by
  unfold advance
  split <;> rfl

@[simp] theorem advance_connections (s : Service) (k : Nat) (tick : Tick) :
    (s.advance k tick).connections = s.connections := by
  unfold advance
  split <;> rfl

@[simp] theorem advance_lastBusy (s : Service) (k : Nat) (tick : Tick) :
    (s.advance k tick).lastBusy = s.lastBusy := by
  unfold advance
  split <;> rfl

@[simp] theorem advance_reaper (s : Service) (k : Nat) (tick : Tick) :
    (s.advance k tick).reaper = s.reaper := by
  unfold advance
  split <;> rfl

/-- A task that returns can do so at once. -/
theorem enabled_of_ret {s : Service} {k : Nat} {task : Task}
    {body : ResponseBody} (ht : s.world.tasks k = some task)
    (hprog : task.prog = .ret body) (tick : Tick) :
    s.enabled k tick = true := by
  obtain ⟨job, started, client, prog⟩ := task
  subst hprog
  simp [enabled, World.about, ht]

theorem advance_world {s : Service} {k : Nat} {tick : Tick}
    (h : s.enabled k tick = true) :
    (s.advance k tick).world = s.world.step (.move k tick) := by
  rw [advance, if_pos h]

theorem advance_of_not_enabled {s : Service} {k : Nat} {tick : Tick}
    (h : s.enabled k tick = false) : s.advance k tick = s := by
  rw [advance, if_neg (by simp [h])]

/-- What becomes of the rest of the service with a connection's step. -/
structure Goes (s s' : Service) (c : Nat) (conn conn' : Conn)
    (draw : Chance) (a : Option Act) : Prop where
  conns : s'.conns = s.conns.set c conn'
  world : s'.world = s.world.took a
  connections : s'.connections = conn.stage.recount s.connections
  lastBusy : s'.lastBusy
    = if conn.stage.touches draw then draw.now else s.lastBusy
  reaper : s'.reaper = s.reaper
  told : s'.told = s.told

theorem set_self {l : List Conn} {c : Nat} {conn : Conn}
    (h : l[c]? = some conn) : l.set c conn = l := by
  obtain ⟨hc, rfl⟩ := List.getElem?_eq_some_iff.1 h
  exact List.set_getElem_self hc

-- =========================================================== what it does

theorem takeLine_worked (s : Service) {c : Nat} {conn : Conn} (draw : Chance)
    (hc : s.conns[c]? = some conn) (h : conn.stage = .reading) :
    ∃ conn' a, Worked reader s draw conn conn' a
      ∧ Goes s (s.takeLine reader c conn) c conn conn' draw a := by
  have hre : ∀ n, conn.stage.recount n = n := by
    rw [h]
    exact fun _ => rfl
  have hto : conn.stage.touches draw = false := by
    rw [h]
    rfl
  unfold takeLine
  split
  next hin =>
    split
    next hend =>
      exact ⟨_, none, .finish h hin hend, rfl, rfl, (hre _).symm, by simp [hto],
        rfl, rfl⟩
    next =>
      exact ⟨_, none, .idle hre, (set_self hc).symm, rfl, (hre _).symm, by simp [hto],
        rfl, rfl⟩
  next line rest hin =>
    dsimp only
    split
    next hreact =>
      exact ⟨_, none, .skip h hin hreact, rfl, rfl, (hre _).symm, by simp [hto],
        rfl, rfl⟩
    next resp hreact =>
      exact ⟨_, none, .hear h hin (hreact ▸ .answered resp), rfl, rfl, (hre _).symm,
        by simp [hto], rfl, rfl⟩
    next id ev hreact =>
      refine ⟨_, some (.receive (.stopWait ev)), .poll h hin hreact, ?_, rfl,
        (hre _).symm, by simp [hto, begin], rfl, rfl⟩
      simp [begin, Conn.hear, Conn.current]
    next id body hreact =>
      exact ⟨_, none, .hear h hin (hreact ▸ .dispatched id body), rfl, rfl,
        (hre _).symm, by simp [hto], rfl, rfl⟩

theorem watchLine_worked (s : Service) {c k : Nat} {conn : Conn}
    (draw : Chance) (hc : s.conns[c]? = some conn) (h : Races conn.stage k)
    (hreads : draw.reads = true)
    (hawait : (∃ id, conn.stage = .racing id k) ∨ s.world.awaiting k = true) :
    ∃ conn' a, Worked reader s draw conn conn' a
      ∧ Goes s (s.watchLine c conn k) c conn conn' draw a := by
  have hre := h.recount
  have hto := h.touches hreads
  unfold watchLine
  split
  next line rest hin =>
    exact ⟨_, none, .stray h hin, rfl, rfl, (hre _).symm, by simp [hto], rfl, rfl⟩
  next hin =>
    split
    next hend =>
      exact ⟨_, some (.lose k), .lose h hin hend hawait, rfl, rfl, (hre _).symm,
        by simp [hto], rfl, rfl⟩
    next =>
      exact ⟨_, none, .idle hre, (set_self hc).symm, rfl, (hre _).symm, by simp [hto],
        rfl, rfl⟩

theorem dispatch_worked (s : Service) {c : Nat} {conn : Conn} {id : UInt64}
    {body : Protocol.RequestBody} (draw : Chance)
    (h : conn.stage = .dispatched id body) :
    ∃ conn' a, Worked reader s draw conn conn' a
      ∧ Goes s (s.dispatch c conn draw.now id body) c conn conn' draw a := by
  have hre : ∀ n, conn.stage.recount n = n := by
    rw [h]
    exact fun _ => rfl
  have hto : conn.stage.touches draw = false := by
    rw [h]
    rfl
  cases body with
  | hello version =>
      exact ⟨_, none, .reply h (.hello version), rfl, rfl, (hre _).symm,
        by simp [hto, dispatch], rfl, rfl⟩
  | event ev =>
      exact ⟨_, none, .hop (h ▸ .event id ev), rfl, rfl, (hre _).symm,
        by simp [hto, dispatch], rfl, rfl⟩
  | stopWait ev =>
      exact ⟨_, none, .hop (h ▸ .stopWait id ev), rfl, rfl, (hre _).symm,
        by simp [hto, dispatch], rfl, rfl⟩
  | status =>
      exact ⟨_, none, .reply h .status, rfl, rfl, (hre _).symm,
        by simp [hto, dispatch], rfl, rfl⟩
  | listForks projectRoot cwd =>
      exact ⟨_, none, .reply h (.listForks projectRoot cwd), rfl, rfl,
        (hre _).symm, by simp [hto, dispatch], rfl, rfl⟩
  | prune =>
      exact ⟨_, some (.receive .prune), .begin (h ▸ .prune id), rfl, rfl,
        (hre _).symm, by simp [hto, dispatch, begin], rfl, rfl⟩
  | shutdown drain =>
      exact ⟨_, none, .reply h (.shutdown drain), rfl, rfl, (hre _).symm,
        by simp [hto, dispatch], rfl, rfl⟩

/-- A task goes on, if its step can be taken. -/
theorem advance_goes (s : Service) {c k : Nat} {conn : Conn} (draw : Chance)
    (hc : s.conns[c]? = some conn)
    (hre : ∀ n, conn.stage.recount n = n)
    (hto : conn.stage.touches draw = false)
    (hmove : ∀ task, s.world.tasks k = some task →
      s.enabled k draw.tick = true →
      Worked reader s draw conn conn (some (.move k draw.tick))) :
    ∃ conn' a, Worked reader s draw conn conn' a
      ∧ Goes s (s.advance k draw.tick) c conn conn' draw a := by
  have hgoes : ∀ a, (s.advance k draw.tick).world = s.world.took a →
      Goes s (s.advance k draw.tick) c conn conn draw a := by
    intro a hworld
    refine ⟨?_, hworld, ?_, ?_, advance_reaper .., ?_⟩
    · rw [advance_conns, set_self hc]
    · rw [advance_connections, hre]
    · rw [advance_lastBusy, hto, if_neg Bool.false_ne_true]
    · unfold advance
      split <;> rfl
  cases hen : s.enabled k draw.tick with
  | false =>
      refine ⟨conn, none, .idle hre, hgoes none ?_⟩
      rw [advance_of_not_enabled hen]
      rfl
  | true =>
      have hworld := advance_world hen
      cases ht : s.world.tasks k with
      | none =>
          rw [World.step_move_none ht] at hworld
          exact ⟨conn, none, .idle hre, hgoes none hworld⟩
      | some task => exact ⟨conn, _, hmove task ht hen, hgoes _ hworld⟩

theorem serve_worked (s : Service) {c k : Nat} {conn : Conn} {id : UInt64}
    (draw : Chance) (hc : s.conns[c]? = some conn)
    (h : WaitsFor conn.stage id k) :
    ∃ conn' a, Worked reader s draw conn conn' a
      ∧ Goes s (s.serve c conn id k draw.tick) c conn conn' draw a := by
  have hre := h.recount
  have hto := h.touches draw
  unfold serve
  split
  next job started client body ht =>
    have hen := enabled_of_ret ht rfl draw.tick
    refine ⟨_, _, .answer h ht rfl, ?_, advance_world hen, ?_, ?_, ?_, ?_⟩
    · rw [put_conns, advance_conns]
    · rw [put_connections, advance_connections, hre]
    · rw [put_lastBusy, advance_lastBusy, hto, if_neg Bool.false_ne_true]
    · exact advance_reaper ..
    · show (s.advance k draw.tick).told = _
      rw [advance, if_pos hen]
  next hret =>
    refine advance_goes s draw hc hre hto fun task ht hen => ?_
    obtain ⟨job, started, client, prog⟩ := task
    cases prog with
    | ret body => exact (hret _ _ _ _ ht).elim
    | call op f => exact .advance h ht rfl hen

/-- What a step of a connection's task does is one of the steps listed. -/
theorem work_worked (reader : LineReader) (s : Service) {c : Nat}
    {conn : Conn} (draw : Chance) (hc : s.conns[c]? = some conn) :
    ∃ conn' a, Worked reader s draw conn conn' a
      ∧ Goes s (s.work reader c conn draw) c conn conn' draw a := by
  unfold work
  split
  next h =>
    exact ⟨_, none, .hop (h ▸ .count), rfl, rfl, by rw [h]; rfl,
      by rw [h]; rfl, rfl, rfl⟩
  next h =>
    exact ⟨_, none, .hop (h ▸ .greet), rfl, rfl, by rw [h]; rfl,
      by rw [h]; rfl, rfl, rfl⟩
  next h => exact takeLine_worked s draw hc h
  next resp must h =>
    exact ⟨_, none, .write h draw.writes, rfl, rfl, by rw [h]; rfl,
      by rw [h]; rfl, rfl, rfl⟩
  next id body h =>
    exact ⟨_, none, .hop (h ▸ .dispatch id body), rfl, rfl, by rw [h]; rfl,
      by rw [h]; rfl, rfl, rfl⟩
  next id body h => exact dispatch_worked s draw h
  next id req h =>
    exact ⟨_, some (.receive req), .begin (h ▸ .handling id req), rfl, rfl,
      by rw [h]; rfl, by rw [h]; rfl, rfl, rfl⟩
  next id k h => exact serve_worked s draw hc (h ▸ .running id k)
  next id k h =>
    split
    next hreads =>
      exact watchLine_worked s draw hc (h ▸ .racing id k) hreads (.inl ⟨id, h⟩)
    next hreads =>
      refine ⟨_, none, .hop (h ▸ .park id k), rfl, rfl, by rw [h]; rfl, ?_,
        rfl, rfl⟩
      rw [h, ConnStage.touches, if_pos (by simpa using hreads)]
      rfl
  next id k h =>
    split
    next hreads =>
      rw [Bool.and_eq_true] at hreads
      exact watchLine_worked s draw hc (h ▸ .parked id k) hreads.1
        (.inr hreads.2)
    next => exact serve_worked s draw hc (h ▸ .parked id k)
  next k h =>
    split
    next ht =>
      exact ⟨_, none, .lost h (by simpa using ht), rfl, rfl, by rw [h]; rfl,
        by rw [h]; rfl, rfl, rfl⟩
    next =>
      exact advance_goes s draw hc (by rw [h]; exact fun _ => rfl)
        (by rw [h]; rfl)
        fun task ht _ => .unwind h ht
  next h =>
    exact ⟨_, none, .hop (h ▸ .leave), rfl, rfl, by rw [h]; rfl,
      by rw [h]; rfl, rfl, rfl⟩
  next h =>
    exact ⟨_, none, .hop (h ▸ .close), rfl, rfl, by rw [h]; rfl,
      by rw [h]; rfl, rfl, rfl⟩
  next h =>
    exact ⟨_, none, .idle (by rw [h]; exact fun _ => rfl), (set_self hc).symm,
      rfl, by rw [h]; rfl, by rw [h]; rfl, rfl, rfl⟩

-- ============================================================== one move

/-- A move that leaves the connections' tasks where they are: what of the
connections it changes. -/
inductive Outside (m : Move) (conns : List Conn) : List Conn → Prop
  | none : Outside m conns conns
  | accept : Outside m conns (conns ++ [({} : Conn)])
  | arrive {c : Nat} {line : String} {conn : Conn} (hm : m = .arrive c line)
      (hc : conns[c]? = some conn) (hend : conn.ended = false) :
      Outside m conns (conns.set c { conn with
        arrived := conn.arrived ++ [line]
        inbox := conn.inbox ++ [line] })
  | hangUp {c : Nat} {conn : Conn} (hc : conns[c]? = some conn) :
      Outside m conns (conns.set c { conn with ended := true })

/-- An action of the world that no connection has asked for. -/
inductive Unasked (s : Service) : Act → Prop
  | reap : Unasked s .reap
  | grace (i : Nat) : Unasked s (.grace i)
  | turn {k : Nat} (tick : Tick) (h : s.world.background k = true) :
      Unasked s (.move k tick)
  | edit (disk : Disk) : Unasked s (.edit disk)

/-- What one move can do: a step of one connection's task, or something
from outside that leaves those tasks where they are. -/
theorem step_cases (reader : LineReader) (s : Service) (m : Move) :
    (∃ c conn draw conn' a, m = .work c draw ∧ s.conns[c]? = some conn
        ∧ Worked reader s draw conn conn' a
        ∧ Goes s (s.step reader m) c conn conn' draw a)
      ∨ (Outside m s.conns (s.step reader m).conns
        ∧ (s.step reader m).connections = s.connections
        ∧ (s.step reader m).lastBusy = s.lastBusy
        ∧ ∃ a, (s.step reader m).world = s.world.took a
          ∧ ∀ act, a = some act → Unasked s act
            ∧ ∀ tick, act.reading = some tick → m.reading = some tick) := by
  have still : ∀ {s' : Service}, Outside m s.conns s'.conns →
      s'.connections = s.connections → s'.lastBusy = s.lastBusy →
      s'.world = s.world → Outside m s.conns s'.conns
        ∧ s'.connections = s.connections ∧ s'.lastBusy = s.lastBusy
        ∧ ∃ a, s'.world = s.world.took a
          ∧ ∀ act, a = some act → Unasked s act
            ∧ ∀ tick, act.reading = some tick → m.reading = some tick :=
    fun h hn hb hw => ⟨h, hn, hb, none, hw, fun _ ha => by cases ha⟩
  unfold step
  split
  next => exact .inr (still .none rfl rfl rfl)
  next =>
    cases m with
    | work c draw =>
        simp only [move]
        split
        next conn hc =>
          obtain ⟨conn', a, hw, hg⟩ := s.work_worked reader draw hc
          exact .inl ⟨c, conn, draw, conn', a, rfl, hc, hw, hg⟩
        next => exact .inr (still .none rfl rfl rfl)
    | accept => exact .inr (still .accept rfl rfl rfl)
    | arrive c line =>
        refine .inr ?_
        simp only [move]
        split
        next conn hc =>
          split
          next => exact still .none rfl rfl rfl
          next hend =>
            exact still (.arrive rfl hc (by simpa using hend)) rfl rfl rfl
        next => exact still .none rfl rfl rfl
    | hangUp c =>
        refine .inr ?_
        simp only [move]
        split
        next conn hc => exact still (.hangUp hc) rfl rfl rfl
        next => exact still .none rfl rfl rfl
    | reap =>
        exact .inr ⟨.none, rfl, rfl, some .reap, rfl, by
          intro act h
          cases h
          exact ⟨.reap, fun _ hread => by cases hread⟩⟩
    | grace i =>
        exact .inr ⟨.none, rfl, rfl, some (.grace i), rfl, by
          intro act h
          cases h
          exact ⟨.grace i, fun _ hread => by cases hread⟩⟩
    | edit disk files quietPeriodSecs =>
        exact .inr ⟨.none, rfl, rfl, some (.edit _), rfl, by
          intro act h
          cases h
          exact ⟨.edit _, fun _ hread => by cases hread⟩⟩
    | turn k tick =>
        refine .inr ?_
        simp only [move]
        split
        next hback =>
          cases hen : s.enabled k tick with
          | true =>
              refine ⟨?_, advance_connections .., advance_lastBusy ..,
                some (.move k tick), advance_world hen, ?_⟩
              · rw [advance_conns]
                exact .none
              · intro act h
                cases h
                exact ⟨.turn tick hback, fun _ h => h⟩
          | false =>
              rw [advance_of_not_enabled hen]
              exact still .none rfl rfl rfl
        next => exact still .none rfl rfl rfl
    | quiet now =>
        refine .inr ?_
        simp only [move, quietReaper]
        split
        case h_4 => split <;> exact still .none rfl rfl rfl
        all_goals exact still .none rfl rfl rfl
    | shutDown =>
        refine .inr ?_
        simp only [move]
        split <;> exact still .none rfl rfl rfl
    | exit interrupted =>
        refine .inr ?_
        simp only [move]
        split <;> exact still .none rfl rfl rfl

-- ============================================================ the world

/-- Any move is, for the world, an action of its own or none; one that
reads the clock reads what the move reads. -/
theorem step_world (reader : LineReader) (s : Service) (m : Move) :
    ∃ a, (s.step reader m).world = s.world.took a
      ∧ ∀ act, a = some act →
        ∀ t, act.reading = some t → m.reading = some t := by
  rcases s.step_cases reader m with
    ⟨c, conn, draw, conn', a, rfl, -, hw, hg⟩ | ⟨-, -, -, a, hworld, ha⟩
  · refine ⟨a, hg.world, fun act hact t ht => ?_⟩
    cases hw with
    | poll | begin | lose => cases hact; cases ht
    | advance | answer | unwind => cases hact; exact ht
    | _ => cases hact
  · exact ⟨a, hworld, fun act hact => (ha act hact).2⟩

/-- A run of the service is a run of the world, with the clock readings
in their order. -/
theorem world_run (reader : LineReader) (s : Service) (ms : List Move) :
    ∃ as, (run (step reader) s ms).world = run World.step s.world as
      ∧ (as.filterMap Act.reading).Sublist (ms.filterMap Move.reading) := by
  induction ms generalizing s with
  | nil => exact ⟨[], rfl, List.Sublist.refl _⟩
  | cons m ms ih =>
      obtain ⟨a, hworld, hread⟩ := s.step_world reader m
      obtain ⟨as, hrun, hsub⟩ := ih (s.step reader m)
      have hcons : (ms.filterMap Move.reading).Sublist
          ((m :: ms).filterMap Move.reading) :=
        (List.sublist_cons_self m ms).filterMap _
      rw [hworld] at hrun
      cases a with
      | none => exact ⟨as, hrun, hsub.trans hcons⟩
      | some act =>
          refine ⟨act :: as, hrun, ?_⟩
          cases hact : act.reading with
          | none =>
              rw [List.filterMap_cons_none hact]
              exact hsub.trans hcons
          | some t =>
              rw [List.filterMap_cons_some hact,
                List.filterMap_cons_some (hread act rfl t hact)]
              exact hsub.cons_cons t

/-- A clock that does not go back, does not go back for the world. -/
theorem world_after (reader : LineReader) (boot : Boot) (ms : List Move) :
    ∃ as, (after reader boot ms).world
        = World.after (boot.disk.withFiles boot.files boot.userForksRoot) as
      ∧ (Ticking ms → Clocked as) := by
  obtain ⟨as, hrun, hsub⟩ := world_run reader (init boot) ms
  exact ⟨as, hrun, fun h => h.sublist hsub⟩

-- ========================================================== the counter

end Service

end Autofork
