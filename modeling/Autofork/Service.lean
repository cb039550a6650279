/-
The serving process: the connections it has accepted, each with the task
that serves it, the tasks their requests start, and the two ways it is
told to go down.

A connection's task runs `handle_conn`. It takes up one line at a time
and answers it before it takes up the next, but for a poll, which it
races against the connection: a line that arrives meanwhile is read and
dropped, and a connection that ends loses the poll.

One move is one step of one connection's task, or something from
outside: a connection, a line, a hang-up, a timer, an edited file. What
a connection's task does between two moves touches nothing that others
see. `touch_busy` reads the clock and stores the reading in one step.

Beside what the code keeps, a connection has a record of what it has
read and written. Nothing reads it.

# Leaving

The quiet reaper loads what it decides on one by one, so the others may
move in between. A notification reaches the polls that are at an await
when it is sent; one that is at work then misses it. `main` waits for
the first one from the start, so the process goes down once there has
been one, and nothing moves after that.
-/
import Autofork.Discovery
import Autofork.Server
import Autofork.System

namespace Autofork

open Lib

-- ============================================================== answers

def SessionInfo.toWire (s : SessionInfo) : Protocol.SessionInfo where
  sessionId := s.sessionId
  projectRoot := s.projectRoot
  status := s.status
  lastActivity := .ofInt s.lastActivity
  promptTokens := s.promptTokens.map .ofNat
  stale := s.stale

def RunInfo.toWire (r : RunInfo) : Protocol.RunInfo where
  fork := r.fork
  trigger := r.trigger
  sessionId := r.sessionId
  state := r.state
  startedAt := .ofInt r.startedAt

def StatusInfo.toWire (i : StatusInfo) : Protocol.StatusInfo where
  version := i.version
  daemonProto := .ofNat i.daemonProto
  pid := .ofNat i.pid
  sessions := i.sessions.map SessionInfo.toWire
  recentRuns := i.recentRuns.map RunInfo.toWire

/-- A handler's answer as a frame's body. -/
def ResponseBody.toWire : ResponseBody → Protocol.ResponseBody
  | .ack => .ack
  | .waited => .waited
  | .wake payload => .wake payload
  | .pruned sessions => .pruned (sessions.map SessionInfo.toWire)

/-- The payload of a wake. -/
def Protocol.ResponseBody.payload : Protocol.ResponseBody → Option String
  | .wake payload => some payload
  | _ => none

theorem Protocol.ResponseBody.payload_eq_some {body : Protocol.ResponseBody}
    {payload : String} (h : body.payload = some payload) :
    body = .wake payload := by
  unfold Protocol.ResponseBody.payload at h
  split at h
  next => rw [Option.some.inj h]
  next => cases h

/-- A discovered fork as it is listed: the warnings of its own file, then
those of the whole discovery. -/
def FoundFork.info (warnings : List String) (e : FoundFork) :
    Protocol.ForkInfo where
  name := e.name
  path := e.path
  description := e.parsed.def.description
  triggers := e.parsed.def.runOn.map ForkRunOn.label
  throttleSecs := e.parsed.def.throttleSecs.map .ofNat
  after := e.parsed.def.after
  overlap := e.parsed.def.overlap
  tags := e.parsed.def.tags
  warnings := e.parsed.warnings ++ warnings

/-- What `list_forks` lists from a directory. -/
def listForks (fs : Files) (cwd userForksRoot : Path) :
    List Protocol.ForkInfo :=
  let found := discoverForks fs cwd (some userForksRoot)
  found.entries.map (FoundFork.info found.warnings)

-- ========================================================== connections

/-- How far the task of a connection has come. -/
inductive ConnStage
  /-- Spawned, and not counted yet. -/
  | accepted
  | counted
  /-- At `next_line`, between two requests. -/
  | reading
  /-- `write_body` is next. Only of some answers does a failed write end
  the connection. -/
  | writing (resp : Protocol.Response) (must : Bool)
  /-- `dispatch`, before its `touch_busy`. -/
  | dispatching (id : UInt64) (body : Protocol.RequestBody)
  | dispatched (id : UInt64) (body : Protocol.RequestBody)
  /-- `handle_event` or `handle_stop_wait`, before its `touch_busy`. -/
  | handling (id : UInt64) (req : Request)
  /-- `dispatch` awaits the handler, task `k`. -/
  | running (id : UInt64) (k : Nat)
  /-- The race of a poll, before the handler has been looked at. -/
  | racing (id : UInt64) (k : Nat)
  | parked (id : UInt64) (k : Nat)
  /-- `on_poll_lost`, and the poll's end. -/
  | losing (k : Nat)
  /-- `handle_conn` has returned. -/
  | returned
  | uncounted
  | over

/-- The connection is among those `connections` counts. -/
def ConnStage.counts : ConnStage → Bool
  | .accepted | .uncounted | .over => false
  | _ => true

structure Conn where
  /-- The lines that have arrived, oldest first. -/
  arrived : List String := []
  /-- Those that have not been read. -/
  inbox : List String := []
  /-- The client's end is closed, or reading has failed. -/
  ended : Bool := false
  stage : ConnStage := .accepted
  /-- The lines taken up as requests, oldest first. -/
  heard : List String := []
  /-- The lines read and dropped while a poll was parked. -/
  strays : List String := []
  /-- The tasks started, each with the number of the line it is for. -/
  tasks : List (Nat × Nat) := []
  /-- The answers written, each with the number of its line. -/
  sent : List (Nat × Protocol.Response) := []
  /-- The lines whose answer could not be written. -/
  unsent : List Nat := []
  /-- The lines whose poll was lost. -/
  lost : List Nat := []

/-- The number of the line taken up last. -/
def Conn.current (conn : Conn) : Nat := conn.heard.length - 1

/-- A line is taken up. -/
def Conn.hear (conn : Conn) (line : String) (stage : ConnStage) : Conn :=
  { conn with heard := conn.heard ++ [line], stage }

/-- An answer is ready. -/
def Conn.answer (conn : Conn) (id : UInt64) (body : Protocol.ResponseBody) :
    Conn :=
  { conn with stage := .writing (Protocol.reply id body) true }

/-- `write_body`: an answer that must be written ends the connection when
it cannot be. -/
def Conn.write (conn : Conn) (resp : Protocol.Response) (must ok : Bool) :
    Conn :=
  if ok then
    { conn with sent := conn.sent ++ [(conn.current, resp)], stage := .reading }
  else
    { conn with
      unsent := conn.unsent ++ [conn.current]
      stage := if must then .returned else .reading }

-- ============================================================== process

/-- How far the quiet reaper has come. -/
inductive Reaper
  | asleep
  | configured (quietPeriodSecs : Nat)
  | clocked (quietPeriodSecs : Nat) (now : Int)
  /-- `last_busy` is loaded, `connections` is next. -/
  | loaded (quietPeriodSecs : Nat) (now lastBusy : Int)
  /-- Decided. -/
  | leaving
  | gone
  deriving DecidableEq

structure Service where
  world : World
  files : Files
  userForksRoot : Path
  /-- What `cfg_for(None)` says. -/
  quietPeriodSecs : Nat
  pid : Nat
  conns : List Conn := []
  connections : Nat := 0
  lastBusy : Int
  reaper : Reaper := .asleep
  /-- How many `request_shutdown` have been spawned and have not run. -/
  shutdowns : Nat := 0
  /-- A notification has been sent. -/
  told : Bool := false
  /-- The polls a notification has reached, at the await they are at. -/
  notified : Nat → Bool := fun _ => false
  down : Bool := false

/-- What a daemon comes up with, and when. -/
structure Boot where
  disk : Disk
  files : Files
  userForksRoot : Path
  quietPeriodSecs : Nat
  pid : Nat
  now : Int

/-- What the JSON crate makes of a line: a document, or a complaint. -/
structure LineReader where
  parse : String → Option JsonDoc
  complaint : String → String

def LineReader.reaction (reader : LineReader) (line : String) : Protocol.Reaction :=
  Protocol.handleLine reader.parse reader.complaint line

/-- The reader that knows these lines. -/
def LineReader.holding (frames : List (String × Protocol.Request)) : LineReader where
  parse line := (frames.lookup line).map Protocol.request.ser
  complaint _ := "expected value"

/-- The files of one forks root with these forks. -/
def Files.holding (root : Path) (forks : List (String × ForkDef)) :
    Files where
  readDir dir :=
    if dir = root then some (forks.map fun f => encode (f.1 ++ ".md").toList)
    else none
  isDir path := path == root
  isFile _ := false
  readToString _ := .ok ""
  canonicalize := some
  parseForkFile name _ := match forks.lookup name with
    | some fork => .fork ⟨fork, "", []⟩
    | none => .notFork false

/-- A daemon of a user with these forks, to whom every project has this
configuration. -/
def Boot.holding (forks : List (String × ForkDef)) (cfg : Config) : Boot where
  disk := .holding [] cfg none
  files := .holding "/u" forks
  userForksRoot := "/u"
  quietPeriodSecs := 600
  pid := 1
  now := 0

/-- What a step of a connection's task draws from outside. -/
structure Chance where
  now : Int := 0
  /-- How an await of the handler is resolved. -/
  branch : Branch := .timer
  /-- The race looks at the connection, and not at the handler. -/
  reads : Bool := false
  /-- The write succeeds. -/
  writes : Bool := true

def Chance.tick (draw : Chance) : Tick := { now := draw.now, branch := draw.branch }

/-- A handler is at an await. -/
def World.awaiting (w : World) (k : Nat) : Bool := (w.about k).any Op.awaits

/-- A task no connection serves. -/
def World.background (w : World) (k : Nat) : Bool :=
  match w.jobs[k]? with
  | some (.request _) => false
  | _ => true

/-- `fetch_sub(1)`, which wraps. -/
def fetchSub (n : Nat) : Nat := if n = 0 then u64Max else n - 1

namespace Service

/-- The daemon as it comes up. -/
def init (boot : Boot) : Service where
  world := .init (boot.disk.withFiles boot.files boot.userForksRoot)
  files := boot.files
  userForksRoot := boot.userForksRoot
  quietPeriodSecs := boot.quietPeriodSecs
  pid := boot.pid
  lastBusy := boot.now

def touchBusy (s : Service) (now : Int) : Service := { s with lastBusy := now }

/-- Connection `c` goes on as `conn`. -/
def put (s : Service) (c : Nat) (conn : Conn) : Service :=
  { s with conns := s.conns.set c conn }

/-- A request of connection `c` becomes a task. -/
def begin (s : Service) (c : Nat) (conn : Conn) (req : Request)
    (stage : Nat → ConnStage) : Service :=
  let k := s.world.jobs.length
  { s with world := s.world.step (.receive req) }.put c { conn with
    tasks := conn.tasks ++ [(conn.current, k)]
    stage := stage k }

/-- The step of task `k` can be taken: its operation is enabled, and the
notification it would take has been sent. -/
def enabled (s : Service) (k : Nat) (tick : Tick) : Bool :=
  match s.world.about k with
  | none => true
  | some op => (exec k op tick s.world.daemon).isSome
      && !(op.awaits && tick.branch == .shutdown && !s.notified k)

/-- Task `k` performs its next operation, or returns. -/
def advance (s : Service) (k : Nat) (tick : Tick) : Service :=
  if s.enabled k tick then
    { s with
      world := s.world.step (.move k tick)
      notified := upd s.notified k false }
  else s

/-- `next_line`, between two requests. -/
def takeLine (reader : LineReader) (s : Service) (c : Nat) (conn : Conn) :
    Service :=
  match conn.inbox with
  | [] => if conn.ended then s.put c { conn with stage := .returned } else s
  | line :: rest =>
      let conn := { conn with inbox := rest }
      match reader.reaction line with
      | .skipped => s.put c conn
      | .answered resp => s.put c (conn.hear line (.writing resp false))
      | .parked id ev =>
          s.begin c (conn.hear line .reading) (.stopWait ev) (.racing id)
      | .dispatched id body => s.put c (conn.hear line (.dispatching id body))

/-- `next_line`, in the race of a poll: a stray line is ignored. -/
def watchLine (s : Service) (c : Nat) (conn : Conn) (k : Nat) : Service :=
  match conn.inbox with
  | line :: rest =>
      s.put c { conn with inbox := rest, strays := conn.strays ++ [line] }
  | [] =>
      if conn.ended then
        { s with world := s.world.step (.lose k) }.put c { conn with
          lost := conn.lost ++ [conn.current]
          stage := .losing k }
      else s

/-- `dispatch`, after its `touch_busy`. -/
def dispatch (s : Service) (c : Nat) (conn : Conn) (now : Int) (id : UInt64) :
    Protocol.RequestBody → Service
  | .hello _ => s.put c (conn.answer id (.helloInfo packageVersion))
  | .event ev => s.put c { conn with stage := .handling id (.event ev) }
  | .stopWait ev => s.put c { conn with stage := .handling id (.stopWait ev) }
  | .status => s.put c (conn.answer id
      (.statusInfo (statusAt s.world.daemon s.pid now).toWire))
  | .listForks _ cwd => s.put c (conn.answer id
      (.forkList (listForks s.files cwd s.userForksRoot)))
  | .prune => s.begin c conn .prune (.running id)
  | .shutdown _ =>
      { s with shutdowns := s.shutdowns + 1 }.put c (conn.answer id .ack)

/-- The handler that connection `c` waits for goes on. -/
def serve (s : Service) (c : Nat) (conn : Conn) (id : UInt64) (k : Nat)
    (tick : Tick) : Service :=
  match s.world.tasks k with
  | some { prog := .ret body, .. } =>
      (s.advance k tick).put c (conn.answer id body.toWire)
  | _ => s.advance k tick

/-- The task of connection `c` goes on. -/
def work (reader : LineReader) (s : Service) (c : Nat) (conn : Conn)
    (draw : Chance) : Service :=
  match conn.stage with
  | .accepted => { s with connections := s.connections + 1 }.put c
      { conn with stage := .counted }
  | .counted => (s.touchBusy draw.now).put c { conn with stage := .reading }
  | .reading => s.takeLine reader c conn
  | .writing resp must => s.put c (conn.write resp must draw.writes)
  | .dispatching id body => (s.touchBusy draw.now).put c
      { conn with stage := .dispatched id body }
  | .dispatched id body => s.dispatch c conn draw.now id body
  | .handling id req =>
      (s.touchBusy draw.now).begin c conn req (.running id)
  | .running id k => s.serve c conn id k draw.tick
  | .racing id k =>
      if draw.reads then s.watchLine c conn k
      else (s.touchBusy draw.now).put c { conn with stage := .parked id k }
  | .parked id k =>
      if draw.reads && s.world.awaiting k then s.watchLine c conn k
      else s.serve c conn id k draw.tick
  | .losing k =>
      if (s.world.tasks k).isNone then s.put c { conn with stage := .returned }
      else s.advance k draw.tick
  | .returned => { s with connections := fetchSub s.connections }.put c
      { conn with stage := .uncounted }
  | .uncounted => (s.touchBusy draw.now).put c { conn with stage := .over }
  | .over => s

/-- `notify_waiters`: it reaches who is at an await. -/
def notify (s : Service) : Service :=
  { s with
    told := true
    notified := fun k => s.notified k || s.world.awaiting k }

/-- True when no connection is open. -/
def isQuiet (s : Service) : Bool := s.connections == 0

/-- The quiet reaper goes on: its timer, or its next load. -/
def quietReaper (s : Service) (now : Int) : Service :=
  match s.reaper with
  | .asleep => { s with reaper := .configured s.quietPeriodSecs }
  | .configured period => { s with reaper := .clocked period now }
  | .clocked period t => { s with reaper := .loaded period t s.lastBusy }
  | .loaded period t lastBusy =>
      if s.isQuiet && decide (asI64 period ≤ wrapI64 (t - lastBusy)) then
        { s with reaper := .leaving }
      else { s with reaper := .asleep }
  | .leaving => { s.notify with reaper := .gone }
  | .gone => s

end Service

-- ================================================================ moves

inductive Move
  /-- A client connects. -/
  | accept
  /-- A line arrives on connection `c`. -/
  | arrive (c : Nat) (line : String)
  /-- The client of connection `c` closes it, or dies. -/
  | hangUp (c : Nat)
  /-- The task of connection `c` goes on. -/
  | work (c : Nat) (draw : Chance)
  /-- The session reaper's timer. -/
  | reap
  /-- The `i`-th grace timer runs down. -/
  | grace (i : Nat)
  /-- A task no connection serves goes on. -/
  | turn (k : Nat) (tick : Tick)
  /-- The files change, and with them the configuration. -/
  | edit (disk : Disk) (files : Files) (quietPeriodSecs : Nat)
  /-- The quiet reaper goes on. -/
  | quiet (now : Int)
  /-- A `request_shutdown` runs. -/
  | shutDown
  /-- The process goes down, being told to or interrupted. -/
  | exit (interrupted : Bool)

/-- What the clock says at a move, if the move can ask. -/
def Move.reading : Move → Option Int
  | .work _ draw => some draw.now
  | .turn _ tick => some tick.now
  | .quiet now => some now
  | _ => none

/-- The clock does not go back. -/
def Ticking (ms : List Move) : Prop :=
  (ms.filterMap Move.reading).Pairwise (· ≤ ·)

instance (ms : List Move) : Decidable (Ticking ms) :=
  inferInstanceAs (Decidable (List.Pairwise _ _))

namespace Service

/-- A move of a process that is up. -/
def move (reader : LineReader) (s : Service) : Move → Service
  | .accept => { s with conns := s.conns ++ [{}] }
  | .arrive c line => match s.conns[c]? with
      | some conn =>
          if conn.ended then s
          else s.put c { conn with
            arrived := conn.arrived ++ [line]
            inbox := conn.inbox ++ [line] }
      | none => s
  | .hangUp c => match s.conns[c]? with
      | some conn => s.put c { conn with ended := true }
      | none => s
  | .work c draw => match s.conns[c]? with
      | some conn => s.work reader c conn draw
      | none => s
  | .reap => { s with world := s.world.step .reap }
  | .grace i => { s with world := s.world.step (.grace i) }
  | .turn k tick => if s.world.background k then s.advance k tick else s
  | .edit disk files quietPeriodSecs =>
      { s with
        world := s.world.step (.edit (disk.withFiles files s.userForksRoot))
        files
        quietPeriodSecs }
  | .quiet now => s.quietReaper now
  | .shutDown =>
      if s.shutdowns = 0 then s
      else { s.notify with shutdowns := s.shutdowns - 1 }
  | .exit interrupted =>
      if s.told || interrupted then { s with down := true } else s

def step (reader : LineReader) (s : Service) (m : Move) : Service :=
  if s.down then s else s.move reader m

/-- The service a run leads to. -/
abbrev after (reader : LineReader) (boot : Boot) (ms : List Move) : Service :=
  run (step reader) (init boot) ms

end Service

end Autofork
