/-
The hooks: what Claude Code runs, and their end of the connections to the
daemon.

A hook has one request to make. Two kinds of hooks first ask the daemon
for its version, and retire one that is outdated; what comes up then is
another daemon. A client writes a line and reads one, and looks at
neither the protocol nor the number of what it has read. A call may fail
or time out at any moment, and a hook may be killed. It exits with 2
where a Stop's poll has been answered with a wake, and with 0 otherwise.

A `Site` is a daemon with the hooks that run while it is up, in any
order. Whoever else is connected to it writes what it likes.

Of a write that fails, anything may have arrived: a part of the line, or
all of it, or a part with the next line right after it.

Beside what the code keeps, a client has a record of the requests it has
written, and a hook of those that it has had answered. Nothing reads
them.
-/
import Autofork.Service
import Autofork.Lib.Decimal

namespace Autofork

open Lib

-- ============================================================= versions

/-- A part of a version: its leading digits. -/
def versionPart (part : List Char) : Nat :=
  (parseU64 (part.takeWhile Char.isDigit)).getD 0

/-- The three parts of a version; those that are missing count as 0. -/
def versionParts (s : String) : List Nat :=
  let parts := (((trim s.toList).splitOn '.').take 3).map versionPart
  parts ++ List.replicate (3 - parts.length) 0

/-- The one version is older than the other. -/
def semverLt (a b : String) : Bool := decide (versionParts a < versionParts b)

/-- What `ensure_current_version` makes of the answer to its Hello. -/
def outdated (mine : String) : Protocol.ResponseBody → Bool
  | .helloInfo version => semverLt version mine
  | .error .. => true
  | _ => false

-- ============================================================== clients

/-- A daemon's line reader, and what its clients write and read it
with. -/
structure Wire extends LineReader where
  render : JsonDoc → String

/-- The line of a request. -/
def Wire.line (wire : Wire) (req : Protocol.Request) : String :=
  wire.render (Protocol.request.ser req)

/-- The line of an answer, as the client reads it. -/
def Wire.read (wire : Wire) (resp : Protocol.Response) :
    Option Protocol.Response :=
  Protocol.decode Protocol.response wire.parse
    (wire.render (Protocol.response.ser resp))

structure Client where
  /-- The connection. -/
  conn : Nat
  nextId : UInt64 := 1
  /-- How many of the daemon's answers have been read off the stream. -/
  read : Nat := 0
  /-- The requests written, oldest first. -/
  asked : List Protocol.Request := []

/-- The next request of a client. -/
def Client.request (client : Client) (body : Protocol.RequestBody) :
    Protocol.Request where
  proto := .ofNat protoVersion
  id := client.nextId
  body

/-- It has been written. -/
def Client.wrote (client : Client) (req : Protocol.Request) : Client :=
  { client with
    nextId := client.nextId + 1
    asked := client.asked ++ [req] }

/-- The first answer that has not been read. -/
def Client.waiting (client : Client) (s : Service) : Option Protocol.Response :=
  (s.conns[client.conn]?.bind fun conn => conn.sent[client.read]?).map Prod.snd

/-- `read_line`, through a reader of its own: what has come with the line
goes when the reader is dropped. -/
def Client.drain (client : Client) (s : Service) (more : Nat) : Client :=
  { client with
    read := min (client.read + 1 + more)
      ((s.conns[client.conn]?.map fun conn => conn.sent.length).getD 0) }

-- ================================================================ hooks

inductive HookKind
  | sessionStart
  | userPromptSubmit
  | stopWait
  | sessionEnd
  deriving DecidableEq, Repr

/-- The request a hook is there to make. -/
def HookKind.body (kind : HookKind) (input : HookInput) (env : HookEnv) :
    Protocol.RequestBody :=
  match kind with
  | .sessionStart => .event (hookEvent input env .sessionStart)
  | .userPromptSubmit => .event (Autofork.userPromptSubmit input env)
  | .stopWait => .stopWait (hookEvent input env .stop)
  | .sessionEnd => .event (hookEvent input env .sessionEnd)

/-- The hook asks for the daemon's version first. -/
def HookKind.checks : HookKind → Bool
  | .sessionStart | .stopWait => true
  | _ => false

/-- The calls of `Client::request` a hook makes. -/
inductive HookCall
  /-- `ensure_current_version`. -/
  | hello
  /-- Of an outdated daemon. Nothing is made of the answer. -/
  | shutdown
  /-- The request the hook is there to make. -/
  | own
  deriving DecidableEq, Repr

/-- Where a hook is. -/
inductive HookStage
  /-- Up to its `connect`, or `connect_or_spawn`. -/
  | connecting
  | writing (call : HookCall) (client : Client)
  | reading (call : HookCall) (client : Client) (req : Protocol.Request)
  /-- It has found another daemon. -/
  | elsewhere
  | exited (code : Nat) (stderr : Option String)
  | killed

/-- The connection the hook has open. -/
def HookStage.client : HookStage → Option Client
  | .writing _ client | .reading _ client _ => some client
  | _ => none

/-- The process is still there. -/
def HookStage.live : HookStage → Bool
  | .exited .. | .killed => false
  | _ => true

/-- A request, and what was taken for its answer. -/
structure Exchange where
  conn : Nat
  /-- The number of the line. -/
  n : Nat
  req : Protocol.Request
  resp : Protocol.Response

structure Hook where
  kind : HookKind
  version : String
  /-- What it has read from its standard input and finds around it, if
  both can be had. -/
  given : Option (HookInput × HookEnv)
  /-- It runs inside a fork. -/
  guarded : Bool := false
  /-- It has retired no daemon. -/
  fresh : Bool := true
  stage : HookStage := .connecting
  exchanges : List Exchange := []

def Hook.says (hook : Hook) : HookCall → Option Protocol.RequestBody
  | .hello => some (.hello hook.version)
  | .shutdown => some (.shutdown true)
  | .own => hook.given.map fun g => hook.kind.body g.1 g.2

/-- A call has been answered. -/
def Hook.heard (hook : Hook) (call : HookCall) (client : Client)
    (req : Protocol.Request) (resp : Protocol.Response) : Hook :=
  if call = .shutdown then hook
  else { hook with
    exchanges := hook.exchanges ++ [⟨client.conn, client.read, req, resp⟩] }

/-- What the hook exits with when its own request has been answered, or
could not be, and what it prints. -/
def HookKind.verdict : HookKind → Option Protocol.ResponseBody → HookStage
  | .stopWait, some (.wake payload) => .exited 2 (some payload)
  | _, _ => .exited 0 none

-- ================================================================= site

structure Site where
  daemon : Service
  hooks : List Hook := []
  /-- The connections that hooks have opened, each with its hook. -/
  opened : List (Nat × Nat) := []

/-- What a step of a hook draws from outside. -/
structure Luck where
  /-- What it tries succeeds, in time. -/
  ok : Bool := true
  /-- The daemon it connects to is another one. -/
  elsewhere : Bool := false
  /-- The lines that arrive of a write that fails. -/
  stray : List String := []
  /-- How many answers are read along with the one that is wanted. -/
  more : Nat := 0

/-- One step of the interleaving. -/
inductive SiteAct
  /-- The daemon, or somebody else who is connected to it. -/
  | daemon (m : Move)
  /-- Claude Code runs a hook, or one comes that has retired a daemon. -/
  | run (kind : HookKind) (version : String)
      (given : Option (HookInput × HookEnv)) (guarded fresh : Bool)
  /-- Hook `i` goes on. -/
  | go (i : Nat) (draw : Luck)
  /-- Hook `i` is killed. -/
  | kill (i : Nat)

namespace Site

variable (wire : Wire) (w : Site)

/-- The daemon makes moves. -/
def moves (ms : List Move) : Site :=
  { w with daemon := run (Service.step wire.toLineReader) w.daemon ms }

/-- Hook `i` goes on as `hook`. -/
def put (i : Nat) (hook : Hook) : Site := { w with hooks := w.hooks.set i hook }

/-- Hook `i` takes up a connection. -/
def connect (i : Nat) (hook : Hook) : Site :=
  let client : Client := { conn := w.daemon.conns.length }
  let call := if hook.kind.checks && hook.fresh then HookCall.hello else .own
  { (w.moves wire [.accept]).put i { hook with stage := .writing call client } with
    opened := w.opened ++ [(client.conn, i)] }

/-- Hook `i` drops its connection, and is elsewhere. -/
def drop (i : Nat) (hook : Hook) (client : Client) (stage : HookStage) : Site :=
  (w.moves wire [.hangUp client.conn]).put i { hook with stage }

/-- A call of hook `i` has returned. -/
def returned (i : Nat) (hook : Hook) (client : Client) (call : HookCall)
    (result : Option Protocol.ResponseBody) : Site :=
  match call with
  | .hello =>
      let old := (result.map (outdated hook.version)).getD true
      w.put i { hook with stage := .writing (if old then .shutdown else .own) client }
  | .shutdown => w.drop wire i { hook with fresh := false } client .connecting
  | .own => w.drop wire i hook client (hook.kind.verdict result)

/-- Hook `i` goes on. -/
def go (i : Nat) (hook : Hook) (draw : Luck) : Site :=
  match hook.stage with
  | .connecting =>
      if hook.guarded || hook.given.isNone || !draw.ok then
        w.put i { hook with stage := .exited 0 none }
      else if draw.elsewhere then w.put i { hook with stage := .elsewhere }
      else if w.daemon.down then w
      else w.connect wire i hook
  | .writing call client => match hook.says call with
      | none => w
      | some body =>
          let req := client.request body
          if draw.ok then
            (w.moves wire [.arrive client.conn (wire.line req)]).put i
              { hook with stage := .reading call (client.wrote req) req }
          else
            (w.moves wire (draw.stray.map (.arrive client.conn))).returned wire i
              hook (client.wrote req) call none
  | .reading call client req =>
      if draw.ok then match client.waiting w.daemon with
        | none => w
        | some resp =>
            let client' := client.drain w.daemon draw.more
            match wire.read resp with
            | none => w.returned wire i hook client' call none
            | some resp => w.returned wire i (hook.heard call client req resp)
                client' call (some resp.body)
      else w.returned wire i hook client call none
  | _ => w

def step : SiteAct → Site
  | .daemon m => match m with
      | .arrive c _ =>
          if c ∈ w.opened.map Prod.fst then w else w.moves wire [m]
      | _ => w.moves wire [m]
  | .run kind version given guarded fresh =>
      { w with hooks := w.hooks ++ [{ kind, version, given, guarded, fresh }] }
  | .go i draw => match w.hooks[i]? with
      | some hook => w.go wire i hook draw
      | none => w
  | .kill i => match w.hooks[i]? with
      | some hook =>
          if hook.stage.live then match hook.stage.client with
            | some client => w.drop wire i hook client .killed
            | none => w.put i { hook with stage := .killed }
          else w
      | none => w

/-- The site a run leads to, from a daemon as it comes up. -/
abbrev after (boot : Boot) (acts : List SiteAct) : Site :=
  Lib.run (step wire) { daemon := .init boot } acts

end Site

end Autofork
