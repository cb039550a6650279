/-
Wake payloads: the texts a due poll is answered with. A wake carries a
spawn block for each root and names the dependents held back; a release
carries a spawn block for each dependent whose predecessors finished.

What the rest of the development needs of these texts is one fact:
every block carries the marker by which the prompt hook recognizes its
own wakes, so a payload with a block in it does.
-/
import Autofork.Lib.Text

namespace Autofork

open Lib

/-- The greppable marker every wake block carries. -/
def wakeMarker : String := "source: autofork"

/-- The fingerprint every spawn prompt carries. -/
def spawnCtxPrefix : String := "Context for this run: fork '"

/-- One fork that is due, as the payload builder sees it. -/
structure DueFork where
  name : String
  path : String
  trigger : String
  overlap : Bool
  /-- The finished predecessors; empty in a normal wake. -/
  after : List String
  deriving DecidableEq, Repr

/-- A fork held back, named in the payload. -/
structure HeldFork where
  name : String
  after : List String
  deriving DecidableEq, Repr

def quotedNames (names : List String) : String :=
  join ", " (names.map fun p => "'" ++ p ++ "'")

-- ============================================================== blocks

def spawnPrompt (fork : DueFork)
    (sessionId conversationId projectRoot : String) : String :=
  "Read the file " ++ fork.path
    ++ " and follow the instructions in its body. "
    ++ spawnCtxPrefix ++ fork.name ++ "', trigger '" ++ fork.trigger
    ++ "', parent session " ++ sessionId ++ ", conversation "
    ++ conversationId ++ ", project root " ++ projectRoot
    ++ ". The conversation id is stable when a session is resumed (a "
    ++ "resumed session gets a fresh session id); key any "
    ++ "per-conversation artifacts on it. Your final message is your "
    ++ "report."

def overlapLine (fork : DueFork) : String :=
  if fork.overlap then ""
  else " If a previous run of this fork is still among your running "
    ++ "background tasks, skip spawning it."

/-- What every block starts with. -/
def blockHead : String := "---\nsource: autofork\ndue: "

def rootBlock (sessionId conversationId projectRoot : String)
    (fork : DueFork) : String :=
  blockHead ++ (fork.name ++ " (trigger: " ++ fork.trigger ++ ")\n---\n"
    ++ "Spawn a background fork subagent now: use the Agent tool with "
    ++ "subagent_type \"fork\" and this prompt: \""
    ++ spawnPrompt fork sessionId conversationId projectRoot
    ++ "\" Do not read that file yourself — only the fork reads it."
    ++ overlapLine fork)

def releaseBlock (sessionId conversationId projectRoot : String)
    (fork : DueFork) : String :=
  let preds := quotedNames fork.after
  blockHead ++ (fork.name ++ " (trigger: " ++ fork.trigger
    ++ ") — released, " ++ preds ++ " finished\n---\n"
    ++ "Fork " ++ preds ++ " has finished; its completion notification "
    ++ "(with its report) is earlier in this conversation. Spawn a "
    ++ "background fork subagent now: use the Agent tool with "
    ++ "subagent_type \"fork\" and this prompt: \""
    ++ spawnPrompt fork sessionId conversationId projectRoot
    ++ " This fork runs after " ++ preds ++ "; append the report(s) "
    ++ preds ++ " returned in their completion notifications to this "
    ++ "prompt, so the fork can build on them.\" Do not read that file "
    ++ "yourself — only the fork reads it." ++ overlapLine fork)

/-- Rides in every wake: what to do when the fork type is missing. -/
def contingency : String :=
  " If the Agent tool reports \"Agent type 'fork' not found\" (or that "
    ++ "the 'fork' agent type is unavailable), first retry the exact same "
    ++ "Agent call once. If it still fails, do NOT substitute another "
    ++ "agent type (other agents don't inherit this conversation and "
    ++ "cannot do a fork's job). Never create, install, or edit any agent "
    ++ "definition (e.g. a file named fork.md under .claude/agents/) to "
    ++ "work around a missing fork type — a custom agent cannot inherit "
    ++ "this conversation and cannot do a fork's job, and a custom agent "
    ++ "named 'fork' shadows the real built-in type. Instead reply with "
    ++ "one line telling the user the fork agent type isn't loaded in "
    ++ "this turn and that sending any next message will let the forks "
    ++ "spawn. When the user next messages, spawn the due forks listed "
    ++ "above before doing anything else."

def closer (nBlocks : Nat) : String :=
  "After spawning "
    ++ (if nBlocks = 1 then "the fork above" else "all forks above")
    ++ ", reply with one short line acknowledging the background work and "
    ++ "stop." ++ contingency

-- ============================================================ payloads

def heldNote (held : List HeldFork) : String :=
  if held.isEmpty then ""
  else
    let listed := join ", " (held.map fun h =>
      "'" ++ h.name ++ "' (after " ++ quotedNames h.after ++ ")")
    "\n\nAlso due but held back by autofork until their predecessors "
      ++ "finish: " ++ listed ++ ". Do not spawn these now — you will "
      ++ "receive their spawn instructions in a later wake once the "
      ++ "predecessors' completion notifications arrive."

/-- The wake for a due set: its roots and the dependents held back. -/
def buildWakePayload (sessionId conversationId projectRoot : String)
    (forks : List DueFork) (held : List HeldFork) : String :=
  join "\n\n" (forks.map (rootBlock sessionId conversationId projectRoot))
    ++ (heldNote held ++ "\n\n" ++ closer forks.length)

/-- The wake that releases held dependents. -/
def buildReleasePayload (sessionId conversationId projectRoot : String)
    (forks : List DueFork) : String :=
  join "\n\n" (forks.map (releaseBlock sessionId conversationId projectRoot))
    ++ ("\n\n" ++ closer forks.length)

-- ========================================================== the marker

/-- A block carries the marker. -/
private theorem blockHead_marker (s : String) :
    contains (blockHead ++ s) wakeMarker = true :=
  contains_trans (contains_append_left _ _) (by decide)

/-- Blocks that each carry the marker make a payload that does. -/
private theorem join_marker {block : DueFork → String}
    (hblock : ∀ f, contains (block f) wakeMarker = true)
    {forks : List DueFork} (h : forks ≠ []) (tail : String) :
    contains (join "\n\n" (forks.map block) ++ tail) wakeMarker = true := by
  obtain ⟨f, hf⟩ := List.exists_mem_of_ne_nil forks h
  have hjoin : contains (join "\n\n" (forks.map block)) (block f) = true :=
    contains_join (List.mem_map.2 ⟨f, hf, rfl⟩)
  exact contains_trans (contains_append_left _ _)
    (contains_trans hjoin (hblock f))

/-- A wake with a root in it carries the marker. -/
theorem buildWakePayload_marker {sessionId conversationId projectRoot : String}
    {forks : List DueFork} {held : List HeldFork} (h : forks ≠ []) :
    contains (buildWakePayload sessionId conversationId projectRoot forks held)
      wakeMarker = true :=
  join_marker (fun _ => blockHead_marker _) h _

/-- A release with a dependent in it carries the marker. -/
theorem buildReleasePayload_marker
    {sessionId conversationId projectRoot : String} {forks : List DueFork}
    (h : forks ≠ []) :
    contains (buildReleasePayload sessionId conversationId projectRoot forks)
      wakeMarker = true :=
  join_marker (fun _ => blockHead_marker _) h _

end Autofork
