/-
The wire protocol between the CLI and the daemon: a request and its
response, each a line of JSON.

Integers have the widths the frames give them; elsewhere they are not
bounded. A path that is not UTF-8 cannot be written and is not
considered.
-/
import Autofork.Hook
import Autofork.Lib.Serde

namespace Autofork

open Lib

namespace Protocol

-- ============================================================= requests

inductive RequestBody
  /-- The version handshake. -/
  | hello (version : String)
  /-- An event of a hook, answered at once. -/
  | event (ev : Event)
  /-- The long poll of the Stop hook. -/
  | stopWait (ev : Event)
  | status
  | listForks (projectRoot cwd : Path)
  | prune
  /-- Its shape never changes. -/
  | shutdown (drain : Bool)
  deriving DecidableEq, Repr

structure Request where
  proto : UInt32
  id : UInt64
  body : RequestBody
  deriving DecidableEq, Repr

-- ============================================================ responses

inductive ErrorCode
  | protoMismatch
  | badRequest
  | notFound
  | internal
  deriving DecidableEq, Repr

structure SessionInfo where
  sessionId : String
  projectRoot : Path
  status : String
  lastActivity : Int64
  promptTokens : Option UInt64
  stale : Bool
  deriving DecidableEq, Repr

structure RunInfo where
  fork : String
  trigger : String
  sessionId : String
  state : String
  startedAt : Int64
  deriving DecidableEq, Repr

structure ForkInfo where
  name : String
  path : Path
  description : Option String
  triggers : List String
  throttleSecs : Option UInt64
  after : List String
  overlap : Bool
  tags : List String
  warnings : List String
  deriving DecidableEq, Repr

structure StatusInfo where
  version : String
  /-- Not called `proto`, which is the frame's. -/
  daemonProto : UInt32
  pid : UInt32
  sessions : List SessionInfo
  recentRuns : List RunInfo
  deriving DecidableEq, Repr

inductive ResponseBody
  | ack
  | helloInfo (version : String)
  /-- Forks are due. -/
  | wake (payload : String)
  /-- The poll is over without a wake. -/
  | waited
  | statusInfo (info : StatusInfo)
  | forkList (items : List ForkInfo)
  | pruned (sessions : List SessionInfo)
  | error (code : ErrorCode) (message : String)
  deriving DecidableEq, Repr

structure Response where
  proto : UInt32
  id : UInt64
  body : ResponseBody
  deriving DecidableEq, Repr

-- ============================================================ the events

def eventKind : Codec EventKind :=
  .variants [.sessionStart, .promptSubmit, .stop, .sessionEnd]
    (fun
      | .sessionStart => "session_start"
      | .promptSubmit => "prompt_submit"
      | .stop => "stop"
      | .sessionEnd => "session_end")
    (by intro kind; cases kind <;> rfl)

/-- An optional text. -/
def text : Codec (Option String) := .option .string nofun

def tags : Codec (Option (List String)) := .option (.list .string) nofun

def event : Record Event Event :=
  (Record.empty Event.mk)
    |>.field (.required "event" eventKind) Event.event
    |>.field (.required "session_id" .string) Event.sessionId
    |>.field (.optional "transcript_path" text) Event.transcriptPath
    |>.field (.required "cwd" .string) Event.cwd
    |>.field (.required "project_root" .string) Event.projectRoot
    |>.field (.skipNone "source" text) Event.source
    |>.field (.skipNone "model" text) Event.model
    |>.field (.skipNone "enable_tags" tags) Event.enableTags
    |>.field (.skipNone "disable_tags" tags) Event.disableTags
    |>.field (.skipNone "waking" (.option .bool nofun)) Event.waking
    |>.field (.skipNone "notif_tool_use_id" text) Event.notifToolUseId
    |>.field (.skipNone "notif_task_id" text) Event.notifTaskId
    |>.field (.skipNone "notif_status" text) Event.notifStatus

-- ========================================================== the requests

def hello : Record String String :=
  (Record.empty id) |>.field (.required "version" .string) id

def listForks : Record (Path × Path) (Path × Path) :=
  (Record.empty Prod.mk)
    |>.field (.required "project_root" .string) Prod.fst
    |>.field (.required "cwd" .string) Prod.snd

def shutdown : Record Bool Bool :=
  (Record.empty id) |>.field (.required "drain" .bool) id

def requestShape : RequestBody → Shape
  | .hello version => .of "hello" hello version
  | .event ev => .of "event" event ev
  | .stopWait ev => .of "stop_wait" event ev
  | .status => .unit "status"
  | .listForks projectRoot cwd =>
      .of "list_forks" listForks (projectRoot, cwd)
  | .prune => .unit "prune"
  | .shutdown drain => .of "shutdown" shutdown drain

theorem requestShape_notMem (body : RequestBody) :
    ∀ n ∈ (requestShape body).names, n ∉ ["proto", "id", "type"] := by
  have hevent : ∀ n ∈ event.names, n ∉ ["proto", "id", "type"] := by decide
  cases body with
  | hello version =>
      exact (by decide : ∀ n ∈ hello.names, n ∉ ["proto", "id", "type"])
  | event ev => exact hevent
  | stopWait ev => exact hevent
  | status => exact fun _ h => nomatch h
  | listForks projectRoot cwd =>
      exact (by decide : ∀ n ∈ listForks.names, n ∉ ["proto", "id", "type"])
  | prune => exact fun _ h => nomatch h
  | shutdown drain =>
      exact (by decide : ∀ n ∈ shutdown.names, n ∉ ["proto", "id", "type"])

def requestBody : Tagged RequestBody where
  tag := "type"
  variants := [
    .of "hello" hello .hello,
    .of "event" event .event,
    .of "stop_wait" event .stopWait,
    .unit "status" .status,
    .of "list_forks" listForks fun p => .listForks p.1 p.2,
    .unit "prune" .prune,
    .of "shutdown" shutdown .shutdown]
  shape := requestShape
  tag_notMem body h := requestShape_notMem body _ h (by decide)
  read_shape body := by
    cases body with
    | status => exact ⟨_, rfl, rfl⟩
    | prune => exact ⟨_, rfl, rfl⟩
    | _ => exact ⟨_, rfl, Variant.read_of ..⟩

/-- The fields of the frame itself. -/
def requestFrame : Record Request (RequestBody → Request) :=
  (Record.empty Request.mk)
    |>.field (.required "proto" .u32) Request.proto
    |>.field (.required "id" .u64) Request.id

theorem requestFrame_apart (body : RequestBody) :
    ∀ n ∈ requestBody.names body, n ∉ requestFrame.names :=
  requestBody.apart_of_notMem (by decide) (requestShape_notMem body)

def request : Codec Request :=
  requestFrame.flatten requestBody Request.body requestFrame_apart fun _ => rfl

-- ========================================================= the responses

def errorCode : Codec ErrorCode :=
  .variants [.protoMismatch, .badRequest, .notFound, .internal]
    (fun
      | .protoMismatch => "proto_mismatch"
      | .badRequest => "bad_request"
      | .notFound => "not_found"
      | .internal => "internal")
    (by intro code; cases code <;> rfl)

def count : Codec (Option UInt64) := .option .u64 nofun

def sessionInfo : Record SessionInfo SessionInfo :=
  (Record.empty SessionInfo.mk)
    |>.field (.required "session_id" .string) SessionInfo.sessionId
    |>.field (.required "project_root" .string) SessionInfo.projectRoot
    |>.field (.required "status" .string) SessionInfo.status
    |>.field (.required "last_activity" .i64) SessionInfo.lastActivity
    |>.field (.optional "prompt_tokens" count) SessionInfo.promptTokens
    |>.field (.defaulted "stale" .bool false) SessionInfo.stale

def runInfo : Record RunInfo RunInfo :=
  (Record.empty RunInfo.mk)
    |>.field (.required "fork" .string) RunInfo.fork
    |>.field (.required "trigger" .string) RunInfo.trigger
    |>.field (.required "session_id" .string) RunInfo.sessionId
    |>.field (.required "state" .string) RunInfo.state
    |>.field (.required "started_at" .i64) RunInfo.startedAt

def forkInfo : Record ForkInfo ForkInfo :=
  (Record.empty ForkInfo.mk)
    |>.field (.required "name" .string) ForkInfo.name
    |>.field (.required "path" .string) ForkInfo.path
    |>.field (.optional "description" text) ForkInfo.description
    |>.field (.required "triggers" (.list .string)) ForkInfo.triggers
    |>.field (.optional "throttle_secs" count) ForkInfo.throttleSecs
    |>.field (.defaulted "after" (.list .string) []) ForkInfo.after
    |>.field (.defaulted "overlap" .bool false) ForkInfo.overlap
    |>.field (.defaulted "tags" (.list .string) []) ForkInfo.tags
    |>.field (.required "warnings" (.list .string)) ForkInfo.warnings

def sessionInfos : Codec (List SessionInfo) :=
  .list (sessionInfo.codec fun _ => rfl)

def statusInfo : Record StatusInfo StatusInfo :=
  (Record.empty StatusInfo.mk)
    |>.field (.required "version" .string) StatusInfo.version
    |>.field (.required "daemon_proto" .u32) StatusInfo.daemonProto
    |>.field (.required "pid" .u32) StatusInfo.pid
    |>.field (.required "sessions" sessionInfos) StatusInfo.sessions
    |>.field (.required "recent_runs" (.list (runInfo.codec fun _ => rfl)))
      StatusInfo.recentRuns

def wake : Record String String :=
  (Record.empty id) |>.field (.required "payload" .string) id

def forkList : Record (List ForkInfo) (List ForkInfo) :=
  (Record.empty id)
    |>.field (.required "items" (.list (forkInfo.codec fun _ => rfl))) id

def pruned : Record (List SessionInfo) (List SessionInfo) :=
  (Record.empty id) |>.field (.required "sessions" sessionInfos) id

def error : Record (ErrorCode × String) (ErrorCode × String) :=
  (Record.empty Prod.mk)
    |>.field (.required "code" errorCode) Prod.fst
    |>.field (.required "message" .string) Prod.snd

def responseShape : ResponseBody → Shape
  | .ack => .unit "ack"
  | .helloInfo version => .of "hello_info" hello version
  | .wake payload => .of "wake" wake payload
  | .waited => .unit "waited"
  | .statusInfo info => .of "status_info" statusInfo info
  | .forkList items => .of "fork_list" forkList items
  | .pruned sessions => .of "pruned" pruned sessions
  | .error code message => .of "error" error (code, message)

theorem responseShape_notMem (body : ResponseBody) :
    ∀ n ∈ (responseShape body).names, n ∉ ["proto", "id", "type"] := by
  cases body with
  | ack => exact fun _ h => nomatch h
  | helloInfo version =>
      exact (by decide : ∀ n ∈ hello.names, n ∉ ["proto", "id", "type"])
  | wake payload =>
      exact (by decide : ∀ n ∈ wake.names, n ∉ ["proto", "id", "type"])
  | waited => exact fun _ h => nomatch h
  | statusInfo info =>
      exact (by decide : ∀ n ∈ statusInfo.names, n ∉ ["proto", "id", "type"])
  | forkList items =>
      exact (by decide : ∀ n ∈ forkList.names, n ∉ ["proto", "id", "type"])
  | pruned sessions =>
      exact (by decide : ∀ n ∈ pruned.names, n ∉ ["proto", "id", "type"])
  | error code message =>
      exact (by decide : ∀ n ∈ error.names, n ∉ ["proto", "id", "type"])

def responseBody : Tagged ResponseBody where
  tag := "type"
  variants := [
    .unit "ack" .ack,
    .of "hello_info" hello .helloInfo,
    .of "wake" wake .wake,
    .unit "waited" .waited,
    .of "status_info" statusInfo .statusInfo,
    .of "fork_list" forkList .forkList,
    .of "pruned" pruned .pruned,
    .of "error" error fun p => .error p.1 p.2]
  shape := responseShape
  tag_notMem body h := responseShape_notMem body _ h (by decide)
  read_shape body := by
    cases body with
    | ack => exact ⟨_, rfl, rfl⟩
    | waited => exact ⟨_, rfl, rfl⟩
    | _ => exact ⟨_, rfl, Variant.read_of ..⟩

def responseFrame : Record Response (ResponseBody → Response) :=
  (Record.empty Response.mk)
    |>.field (.required "proto" .u32) Response.proto
    |>.field (.required "id" .u64) Response.id

theorem responseFrame_apart (body : ResponseBody) :
    ∀ n ∈ responseBody.names body, n ∉ responseFrame.names :=
  responseBody.apart_of_notMem (by decide) (responseShape_notMem body)

def response : Codec Response :=
  responseFrame.flatten responseBody Response.body responseFrame_apart
    fun _ => rfl

-- ================================================================= lines

/-- `encode`: a frame as a line, its newline included. -/
def encode {α : Type} (c : Codec α) (render : JsonDoc → String) (frame : α) :
    String :=
  render (c.ser frame) ++ "\n"

/-- `from_str`: the frame of a line. The client trims the line first, of
white space that a parser skips anyway. -/
def decode {α : Type} (c : Codec α) (parse : String → Option JsonDoc)
    (line : String) : Option α :=
  (parse line).bind c.de

end Protocol

end Autofork
