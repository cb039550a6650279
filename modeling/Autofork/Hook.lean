/-
What the hooks send: the lifecycle event of the wire protocol, the
task-notification envelope, and how the prompt hook classifies the text
it is given before the daemon sees any of it.

The hook sniffs the wake marker first and the notification envelope
second; a prompt that is neither is genuine user activity, and a hook
input without a prompt leaves the question to the daemon.
-/
import Autofork.Frontmatter
import Autofork.Wake

namespace Autofork

open Lib

/-- A file system path (UTF-8, as the store writes it). -/
abbrev Path := String

-- ======================================================= notifications

/-- How a background-task completion notification starts. -/
def taskNotificationPrefix : String := "<task-notification>"

/-- The ids and the status of a task-notification envelope. -/
structure TaskNotification where
  /-- The `tool_use` id that started the task. -/
  toolUseId : Option String := none
  taskId : Option String := none
  status : Option String := none
  deriving DecidableEq, Repr

/-- The text of the first element of that name, trimmed; none when it
is missing, unclosed or empty. -/
def tagValue (text : String) (name : String) : Option String := do
  let rest ← afterFirst ("<" ++ name ++ ">").toList text.toList
  let value ← beforeFirst ("</" ++ name ++ ">").toList rest
  let value := trim value
  if value = [] then none else some (String.ofList value)

/-- The envelope of a text that starts, white space aside, as a
notification does. -/
def parseTaskNotification (text : String) : Option TaskNotification :=
  let trimmed := String.ofList (trimStart text.toList)
  if taskNotificationPrefix.toList.isPrefixOf trimmed.toList then
    some {
      toolUseId := tagValue trimmed "tool-use-id"
      taskId := tagValue trimmed "task-id"
      status := tagValue trimmed "status" }
  else none

/-- A status after which the task does nothing more. -/
def isTerminalStatus (status : String) : Bool :=
  status == "completed" || status == "failed" || status == "stopped"

-- ============================================================== events

inductive EventKind
  | sessionStart
  | promptSubmit
  /-- The end of a turn, carried by a long poll. -/
  | stop
  | sessionEnd
  deriving DecidableEq, Repr

/-- A lifecycle event. -/
structure Event where
  event : EventKind
  sessionId : String
  transcriptPath : Option Path := none
  cwd : Path
  projectRoot : Path
  source : Option String := none
  model : Option String := none
  /-- The session's enable and disable tag filters. -/
  enableTags : Option (List String) := none
  disableTags : Option (List String) := none
  /-- For a prompt: genuine activity or not, when the hook can tell. -/
  waking : Option Bool := none
  notifToolUseId : Option String := none
  notifTaskId : Option String := none
  notifStatus : Option String := none
  deriving DecidableEq, Repr

/-- The part of a hook's standard input that is consumed. -/
structure HookInput where
  sessionId : String
  transcriptPath : Option Path := none
  source : Option String := none
  model : Option String := none
  prompt : Option String := none
  deriving DecidableEq, Repr

/-- What a hook reads from its process: where it runs, the project that
directory belongs to, and the tag filters of its environment. -/
structure HookEnv where
  cwd : Path
  projectRoot : Path
  enableTags : Option (List String) := none
  disableTags : Option (List String) := none
  deriving DecidableEq, Repr

/-- `tags_from_env`, of a variable's value: its pieces, each once. One
that is unset, or has none, leaves the filter to the configuration. -/
def tagsFromEnv (var : Option String) : Option (List String) :=
  match var with
  | none => none
  | some raw =>
      let out := pushSplit [] raw
      if out.isEmpty then none else some out

/-- The event of a hook run, before any sniffing. -/
def hookEvent (input : HookInput) (env : HookEnv) (kind : EventKind) :
    Event where
  event := kind
  sessionId := input.sessionId
  transcriptPath := input.transcriptPath
  cwd := env.cwd
  projectRoot := env.projectRoot
  source := input.source
  model := input.model
  enableTags := env.enableTags
  disableTags := env.disableTags

/-- The event the prompt hook sends. -/
def userPromptSubmit (input : HookInput) (env : HookEnv) : Event :=
  let ev := hookEvent input env .promptSubmit
  match input.prompt with
  | none => ev
  | some p =>
      if contains p wakeMarker then { ev with waking := some false }
      else match parseTaskNotification p with
        | some n =>
            { ev with
              waking := some false
              notifToolUseId := n.toolUseId
              notifTaskId := n.taskId
              notifStatus := n.status }
        | none => { ev with waking := some true }

-- ======================================================= classification

/-- A prompt that quotes a wake is a continuation, and carries no ids
that would make the daemon look again. -/
theorem userPromptSubmit_of_marker {input : HookInput} {env : HookEnv}
    {p : String} (hp : input.prompt = some p)
    (hm : contains p wakeMarker = true) :
    userPromptSubmit input env
      = { hookEvent input env .promptSubmit with waking := some false } := by
  simp [userPromptSubmit, hp, hm]

end Autofork
