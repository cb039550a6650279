/-
The transcript watcher: one pass over a session transcript (JSON lines)
from a byte offset, and what it extracts.

- the gauge: input and cache tokens of the last assistant message;
- fork spawns: Agent `tool_use` blocks with `subagent_type: "fork"`;
- the task id a spawn's `tool_result` reports;
- task-notification entries.

Parsing a line is the JSON library's affair and a parameter. A file is
the text it holds; a read that starts inside a character fails, as
decoding its first line does. The module on the file's bytes reads any
file, and the same from one that is a text.
-/
import Autofork.Lib.Lines
import Autofork.Planner

namespace Autofork

open Lib

-- ================================================================== json

/-- A JSON value. Of a number only its value as a `u64` is ever read. -/
inductive Json
  | null
  | bool (b : Bool)
  | number (asU64 : Option Nat)
  | string (s : String)
  | array (items : List Json)
  | object (fields : List (String × Json))

namespace Json

/-- `Value::get`. -/
def get (name : String) : Json → Option Json
  | .object fields => fields.lookup name
  | _ => none

def asStr : Json → Option String
  | .string s => some s
  | _ => none

def asU64 : Json → Option Nat
  | .number n => n
  | _ => none

def asArray : Json → Option (List Json)
  | .array items => some items
  | _ => none

/-- A field that is a string. -/
def str (name : String) (value : Json) : Option String :=
  (value.get name).bind asStr

end Json

-- ================================================================ a line

/-- The fork name quoted in a spawn prompt's fingerprint. -/
def forkNameFromPrompt (prompt : String) : Option String := do
  let rest ← afterFirst spawnCtxPrefix.toList prompt.toList
  let name ← beforeFirst ['\''] rest
  if name = [] then none else some (String.ofList name)

/-- The `agentId: <id>` a background launch reports. -/
def agentIdFromResult (text : String) : Option String := do
  let rest ← afterFirst "agentId: ".toList text.toList
  let id := rest.takeWhile fun c => c.isAlphanum || c == '-' || c == '_'
  if id = [] then none else some (String.ofList id)

/-- The text pieces of a tool result's content. -/
def resultTexts (block : Json) : List String :=
  match block.get "content" with
  | some (.string s) => [s]
  | some (.array items) =>
      (items.filter fun i => i.str "type" == some "text").filterMap (Json.str "text")
  | _ => []

/-- The spawn a block of an assistant message is, if it is one. -/
def spawnOf (block : Json) : Option (String × Option String) :=
  if block.str "type" == some "tool_use" && block.str "name" == some "Agent" then do
    let id ← block.str "id"
    let input ← block.get "input"
    if input.str "subagent_type" == some "fork" then
      some (id, (input.str "prompt").bind forkNameFromPrompt)
    else none
  else none

/-- The tokens a usage record counts (as `u64`). -/
def usageTotal (usage : Json) : Nat :=
  let field (k : String) : Nat := ((usage.get k).bind Json.asU64).getD 0
  (field "input_tokens" + field "cache_read_input_tokens"
    + field "cache_creation_input_tokens") % (u64Max + 1)

/-- The blocks of an entry's message. -/
def blocksOf (value : Json) : List Json :=
  (((value.get "message").bind (Json.get "content")).bind Json.asArray).getD []

/-- Assistant entries carry the model, the gauge and the spawns. -/
def scanAssistant (value : Json) (delta : Delta) : Delta :=
  let model := (value.get "message").bind (Json.str "model")
  let gauge := ((value.get "message").bind (Json.get "usage")).bind fun usage =>
    if 0 < usageTotal usage then some (usageTotal usage) else none
  { delta with
    promptTokens := gauge <|> delta.promptTokens
    model := model <|> delta.model
    spawns := delta.spawns ++ (blocksOf value).filterMap spawnOf }

/-- One block of a user entry. -/
def scanUserBlock (delta : Delta) (block : Json) : Delta :=
  match block.str "type" with
  | some "tool_result" => match block.str "tool_use_id" with
      | some toolUseId => { delta with
          taskIds := delta.taskIds ++ (resultTexts block).filterMap fun text =>
            (agentIdFromResult text).map (toolUseId, ·) }
      | none => delta
  | some "text" => { delta with
      notifications := delta.notifications
        ++ ((block.str "text").bind parseTaskNotification).toList }
  | _ => delta

/-- User entries carry tool results and notification envelopes. -/
def scanUser (value : Json) (delta : Delta) : Delta :=
  match (value.get "message").bind (Json.get "content") with
  | some (.string text) => { delta with
      notifications := delta.notifications ++ (parseTaskNotification text).toList }
  | some (.array blocks) => blocks.foldl scanUserBlock delta
  | _ => delta

def scanEntry (value : Json) (delta : Delta) : Delta :=
  match value.str "type" with
  | some "assistant" => scanAssistant value delta
  | some "user" => scanUser value delta
  | _ => delta

-- ================================================================ a file

/-- The length of a text in UTF-8. -/
def utf8Len (text : List Char) : Nat := (text.map Char.utf8Size).sum

/-- What follows the first `n` bytes; none inside a character. -/
def dropBytes : List Char → Nat → Option (List Char)
  | text, 0 => some text
  | [], _ + 1 => some []
  | c :: text, n + 1 =>
      if c.utf8Size ≤ n + 1 then dropBytes text (n + 1 - c.utf8Size) else none

section reading

variable (fromStr : String → Option Json)

/-- One line; one that does not parse is skipped. -/
def scanLine (delta : Delta) (line : List Char) : Delta :=
  let delta := { delta with newOffset := delta.newOffset + utf8Len line }
  match fromStr (String.ofList line) with
  | some value => scanEntry value delta
  | none => delta

/-- Read a transcript from an offset, from the start if it has shrunk
below it, up to its last complete line. -/
def readDelta (file : List Char) (offset : Nat) : Option Delta :=
  let start := if utf8Len file < offset then 0 else offset
  (dropBytes file start).map fun rest =>
    (completeLines '\n' rest).foldl (scanLine fromStr) { newOffset := start }

/-- The fork spawns in the complete lines of a transcript. -/
def spawnsIn (file : List Char) : List (String × Option String) :=
  (completeLines '\n' file).flatMap fun line =>
    match fromStr (String.ofList line) with
    | some value =>
        if value.str "type" = some "assistant" then
          (blocksOf value).filterMap spawnOf
        else []
    | none => []

/-- The spawns of one line. -/
private def lineSpawns (line : List Char) : List (String × Option String) :=
  match fromStr (String.ofList line) with
  | some value =>
      if value.str "type" = some "assistant" then
        (blocksOf value).filterMap spawnOf
      else []
  | none => []

end reading

-- ===================================================== what a pass reads

theorem utf8Len_append (s t : List Char) :
    utf8Len (s ++ t) = utf8Len s + utf8Len t := by
  rw [utf8Len, List.map_append, List.sum_append]
  rfl

/-- A byte offset between two characters. -/
theorem dropBytes_append (s t : List Char) :
    dropBytes (s ++ t) (utf8Len s) = some t := by
  induction s with
  | nil => cases t <;> rfl
  | cons c s ih =>
      have hpos := c.utf8Size_pos
      have hlen : utf8Len (c :: s) = c.utf8Size + utf8Len s := rfl
      obtain ⟨n, hn⟩ : ∃ n, utf8Len (c :: s) = n + 1 :=
        ⟨c.utf8Size + utf8Len s - 1, by omega⟩
      rw [List.cons_append, hn, dropBytes, if_pos (by omega), ← hn, hlen,
        Nat.add_sub_cancel_left]
      exact ih

variable {fromStr : String → Option Json}

private theorem scanUserBlock_keeps (delta : Delta) (block : Json) :
    (scanUserBlock delta block).spawns = delta.spawns
      ∧ (scanUserBlock delta block).newOffset = delta.newOffset := by
  unfold scanUserBlock
  split
  · split <;> exact ⟨rfl, rfl⟩
  · exact ⟨rfl, rfl⟩
  · exact ⟨rfl, rfl⟩

private theorem scanUser_keeps (value : Json) (delta : Delta) :
    (scanUser value delta).spawns = delta.spawns
      ∧ (scanUser value delta).newOffset = delta.newOffset := by
  have hfold : ∀ (blocks : List Json) (delta : Delta),
      (blocks.foldl scanUserBlock delta).spawns = delta.spawns
        ∧ (blocks.foldl scanUserBlock delta).newOffset = delta.newOffset := by
    intro blocks
    induction blocks with
    | nil => exact fun _ => ⟨rfl, rfl⟩
    | cons block blocks ih =>
        intro delta
        obtain ⟨hspawns, hoffset⟩ := scanUserBlock_keeps delta block
        rw [List.foldl_cons, (ih _).1, (ih _).2]
        exact ⟨hspawns, hoffset⟩
  unfold scanUser
  split
  · exact ⟨rfl, rfl⟩
  · exact hfold _ _
  · exact ⟨rfl, rfl⟩

private theorem scanLine_reads (delta : Delta) (line : List Char) :
    (scanLine fromStr delta line).spawns
        = delta.spawns ++ lineSpawns fromStr line
      ∧ (scanLine fromStr delta line).newOffset
        = delta.newOffset + utf8Len line := by
  unfold scanLine lineSpawns
  cases hvalue : fromStr (String.ofList line) with
  | none => exact ⟨(List.append_nil _).symm, rfl⟩
  | some value =>
      simp only [scanEntry]
      split
      next htype =>
        rw [if_pos htype]
        exact ⟨rfl, rfl⟩
      next htype =>
        have hother : value.str "type" ≠ some "assistant" := by
          rw [htype]
          decide
        rw [if_neg hother, List.append_nil]
        exact scanUser_keeps value _
      next hassistant _ =>
        rw [if_neg hassistant, List.append_nil]
        exact ⟨rfl, rfl⟩

/-- Lines move the offset by their bytes and append their spawns. -/
private theorem scan_reads (lines : List (List Char)) (delta : Delta) :
    (lines.foldl (scanLine fromStr) delta).newOffset
        = delta.newOffset + utf8Len lines.flatten
      ∧ (lines.foldl (scanLine fromStr) delta).spawns
        = delta.spawns ++ lines.flatMap (lineSpawns fromStr) := by
  induction lines generalizing delta with
  | nil => exact ⟨rfl, (List.append_nil _).symm⟩
  | cons line lines ih =>
      obtain ⟨hspawns, hoffset⟩ := @scanLine_reads fromStr delta line
      rw [List.foldl_cons, (ih _).1, (ih _).2, hspawns, hoffset,
        List.flatten_cons, List.flatMap_cons, utf8Len_append,
        List.append_assoc, Nat.add_assoc]
      exact ⟨rfl, rfl⟩

theorem newOffset_scan (lines : List (List Char)) (delta : Delta) :
    (lines.foldl (scanLine fromStr) delta).newOffset
      = delta.newOffset + utf8Len lines.flatten :=
  (scan_reads lines delta).1

/-- A read from between two lines ends between two lines, and extracts
the spawns of the lines in between. -/
theorem readDelta_between (s t : List Char) :
    ∃ delta, readDelta fromStr (s ++ t) (utf8Len s) = some delta
      ∧ delta.newOffset = utf8Len (s ++ wholePart '\n' t)
      ∧ delta.spawns = spawnsIn fromStr t := by
  have hlen : ¬utf8Len (s ++ t) < utf8Len s := by
    rw [utf8Len_append]
    omega
  obtain ⟨hoffset, hspawns⟩ :=
    @scan_reads fromStr (completeLines '\n' t) { newOffset := utf8Len s }
  refine ⟨_, ?_, hoffset.trans (utf8Len_append _ _).symm, hspawns⟩
  simp only [readDelta, if_neg hlen, dropBytes_append, Option.map_some]

/-- Spawns stay where they are when a transcript grows. -/
theorem spawnsIn_append {s : List Char} (h : Whole '\n' s) (t : List Char) :
    spawnsIn fromStr (s ++ t) = spawnsIn fromStr s ++ spawnsIn fromStr t := by
  rw [spawnsIn, completeLines_append h, List.flatMap_append]
  rfl

theorem spawnsIn_wholePart (s : List Char) :
    spawnsIn fromStr (wholePart '\n' s) = spawnsIn fromStr s := by
  rw [spawnsIn, completeLines_wholePart, spawnsIn]

end Autofork
