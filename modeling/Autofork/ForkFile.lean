/-
Fork files: a markdown file with YAML frontmatter.

`splitFrontmatter` finds the frontmatter by a search for "\n---" in what
follows the opening fence; each candidate has to be a whole line.
`parseForkFile` interprets it, one key at a time: an invalid value warns
and falls back.
-/
import Autofork.Duration
import Autofork.Frontmatter

namespace Autofork

open Lib

-- =============================================================== split

/-- `strip_suffix('\r')`, where there is one. -/
def stripCrSuffix (s : List Char) : List Char :=
  if s.getLast? = some '\r' then s.dropLast else s

/-- `strip_prefix('\r')`, where there is one. -/
def stripCrPrefix (s : List Char) : List Char :=
  if s.head? = some '\r' then s.tail else s

/-- `strip_prefix`. -/
def stripPrefix (pat s : List Char) : Option (List Char) :=
  if pat <+: s then some (s.drop pat.length) else none

/-- `find`: where the first occurrence of `pat` begins. -/
def findPos (pat s : List Char) : Option Nat :=
  (beforeFirst pat s).map List.length

/-- What follows a candidate that ends its line, or the file. -/
def fenceEnd (tail : List Char) : Option (List Char) :=
  match stripCrPrefix tail with
  | [] => some []
  | c :: body => if c = '\n' then some body else none

/-- The search for the closing fence, from `searchFrom` on: what precedes
it and what follows. Every round gets past a candidate, so the rounds
are no more than the characters. -/
def closeFrontmatter (rest : List Char) :
    Nat → Nat → Option (List Char × List Char)
  | 0, _ => none
  | rounds + 1, searchFrom =>
      match findPos "\n---".toList (rest.drop searchFrom) with
      | none => none
      | some pos =>
          let abs := searchFrom + pos
          match fenceEnd (rest.drop (abs + 4)) with
          | some body => some (stripCrSuffix (rest.take abs), body)
          | none => closeFrontmatter rest rounds (abs + 4)

/-- What follows the opening fence and its line break. -/
def openFrontmatter (content : List Char) : Option (List Char) :=
  (stripPrefix "---".toList content).bind fun rest =>
    stripPrefix "\r\n".toList rest <|> stripPrefix "\n".toList rest

/-- Split a file into its frontmatter and body. Without frontmatter the
whole content is the body. -/
def splitFrontmatter (content : List Char) :
    Option (List Char) × List Char :=
  match openFrontmatter content with
  | none => (none, content)
  | some rest => match closeFrontmatter rest (rest.length + 1) 0 with
    | none => (none, content)
    | some (front, body) => (some front, body)

-- ============================================================ triggers

/-- A percentage, with or without its sign. -/
def parsePercent (v : Yaml) : Option Nat :=
  let n := match v with
    | .number n => n.asU64
    | .string s => parseU64 (trim ((trim s.toList).rdropWhile (· = '%')))
    | _ => none
  n.filter fun n => 1 ≤ n && n ≤ 100

def parseTokenCount : Yaml → Option Nat
  | .number n => n.asU64
  | .string s => parseU64 (trim s.toList)
  | _ => none

/-- The triggers that are plain words. -/
def triggerNamed (s : String) : Option ForkRunOn :=
  if s = "idle" then some (.idle none)
  else if s = "compact" ∨ s = "compaction" then some .compact
  else if s = "session_start" then some .sessionStart
  else if s = "session_end" then some .sessionEnd
  else if s = "manual_stop" then some .manualStop
  else if s = "boot" then some .boot
  else none

/-- The triggers with a value: none for an unknown key, else the trigger
if the value is valid. -/
def triggerValued (key : String) (val : Yaml) : Option (Option ForkRunOn) :=
  if key = "idle" then some ((parseDurationYaml val).map fun s => .idle (some s))
  else if key = "context_tokens" then
    some ((parseTokenCount val).map .contextTokens)
  else if key = "context_used" then
    some ((parsePercent val).map .contextUsedPct)
  else if key = "context_left" then
    some ((parseTokenCount val).map .contextLeft)
  else none

/-- Parse one `run_on` entry: a plain string or a single-key map. -/
def parseRunOnEntry : Yaml → Option ForkRunOn × List String
  | .string s => match triggerNamed s with
    | some trigger => (some trigger, [])
    | none => (none, ["unknown run_on trigger '" ++ s ++ "', skipping"])
  | .mapping [(.string key, val)] => match triggerValued key val with
    | none => (none, ["unknown run_on trigger '" ++ key ++ "', skipping"])
    | some none => (none, ["invalid run_on value for '" ++ key ++ "', skipping"])
    | some (some trigger) => (some trigger, [])
  | _ => (none, ["malformed run_on entry, skipping"])

/-- Parse entries in turn: those that are valid, and all warnings. -/
def parseEntries {α : Type} (parse : Yaml → Option α × List String)
    (entries : List Yaml) : List α × List String :=
  (entries.filterMap fun e => (parse e).1, entries.flatMap fun e => (parse e).2)

-- =============================================== sequencing and tags

def forkWarning (name text : String) : String :=
  "fork '" ++ name ++ "': " ++ text

/-- A text without the white space around it, unless it is blank. -/
def nonBlank (s : String) : Option String :=
  if trim s.toList = [] then none else some (String.ofList (trim s.toList))

/-- Parse one `after` entry: a fork's name, or a map that names it under
`fork` or `skill`. -/
def parseAfterEntry (name : String) : Yaml → Option String × List String
  | .string s => match nonBlank s with
    | some dep => (some dep, [])
    | none => (none, [forkWarning name "malformed after value, ignoring"])
  | .mapping m =>
      let get (k : String) := (Yaml.get m k).bind Yaml.asStr
      let context := if (get "context").isSome then
          [forkWarning name
            "after 'context' is ignored since v0.5 (dependents inherit the parent session)"]
        else []
      match (get "fork" <|> get "skill").bind nonBlank with
      | some dep => (some dep, context)
      | none => (none, context
          ++ [forkWarning name "after entry is missing 'fork', ignoring"])
  | _ => (none, [forkWarning name "malformed after value, ignoring"])

/-- One dependency's turn: a fork does not wait for itself, nor twice
for another. -/
def pushDep (name : String) (out : List String × List String)
    (dep : String) : List String × List String :=
  if dep = name then
    (out.1, out.2 ++ [forkWarning name "after references itself, ignoring"])
  else if out.1.contains dep then
    (out.1, out.2
      ++ [forkWarning name ("duplicate after entry '" ++ dep ++ "', ignoring")])
  else (out.1 ++ [dep], out.2)

/-- Parse the full `after` value: one entry, or a list of entries. -/
def parseAfter (v : Yaml) (name : String) : List String × List String :=
  let parsed := match v with
    | .sequence entries => parseEntries (parseAfterEntry name) entries
    | other => parseEntries (parseAfterEntry name) [other]
  parsed.1.foldl (pushDep name) ([], parsed.2)

/-- An entry of a list of tags. -/
def parseTagsEntry (name : String) : Yaml → Option String × List String
  | .string s => (some s, [])
  | _ => (none, [forkWarning name "tags entry is not a string, skipping"])

/-- Parse the `tags` value: a scalar string or a list of strings, each
split at its commas. -/
def parseTagsYaml (v : Yaml) (name : String) : List String × List String :=
  match v with
  | .string s => (parseTags [s], [])
  | .sequence entries =>
      let texts := parseEntries (parseTagsEntry name) entries
      (parseTags texts.1, texts.2)
  | .null => ([], [])
  | _ => ([], [forkWarning name
      "tags must be a string or a list of strings, ignoring"])

-- ======================================================== the raw fork

/-- The frontmatter's fields. Two are typed, and a value of another type
fails them; the others take any value. -/
structure RawFork where
  fork : Option Yaml := none
  description : Option String := none
  runOn : Option (List Yaml) := none
  throttle : Option Yaml := none
  after : Option Yaml := none
  overlap : Option Yaml := none
  tags : Option Yaml := none
  delivery : Option Yaml := none
  model : Option Yaml := none
  allowedTools : Option Yaml := none
  permissionMode : Option Yaml := none
  rag : Option Yaml := none
  triggers : Option Yaml := none

/-- An optional field of any type: null is absent. -/
def optValue : Option Yaml → Option Yaml
  | some .null => none
  | v => v

/-- An optional text; none when the field is rejected. -/
def optString : Option Yaml → Option (Option String)
  | none | some .null => some none
  | some (.string s) => some (some s)
  | _ => none

/-- An optional list; none when the field is rejected. -/
def optSequence : Option Yaml → Option (Option (List Yaml))
  | none | some .null => some none
  | some (.sequence entries) => some (some entries)
  | _ => none

@[simp] theorem optValue_none : optValue none = none := rfl

@[simp] theorem optString_none : optString none = some none := rfl

@[simp] theorem optSequence_none : optSequence none = some none := rfl

/-- Deserialise a mapping; none when a typed field rejects its value. -/
def RawFork.ofMapping (entries : List (Yaml × Yaml)) : Option RawFork :=
  match optString (Yaml.get entries "description"),
    optSequence (Yaml.get entries "run_on") with
  | some description, some runOn =>
      let field (key : String) := optValue (Yaml.get entries key)
      some
        { fork := field "fork"
          description
          runOn
          throttle := field "throttle"
          after := field "after"
          overlap := field "overlap"
          tags := field "tags"
          delivery := field "delivery"
          model := field "model"
          allowedTools := field "allowed_tools"
          permissionMode := field "permission_mode"
          rag := field "rag"
          triggers := field "triggers" }
  | _, _ => none

namespace RawFork

/-- The fork marker. -/
def isMarked (raw : RawFork) : Bool :=
  match raw.fork with
  | some (.bool true) => true
  | _ => false

/-- An explicit opt-out. -/
def isOptOut (raw : RawFork) : Bool :=
  match raw.fork with
  | some (.bool false) => true
  | _ => false

/-- Keys that only a fork would set. -/
def hasForkLikeKeys (raw : RawFork) : Bool :=
  raw.description.isSome || raw.runOn.isSome || raw.throttle.isSome
    || raw.after.isSome || raw.overlap.isSome || raw.tags.isSome
    || raw.delivery.isSome || raw.model.isSome || raw.allowedTools.isSome
    || raw.permissionMode.isSome

-- ------------------------------------------------------- key by key

def throttleSecs (raw : RawFork) (name : String) : Option Nat × List String :=
  match raw.throttle with
  | none => (none, [])
  | some v => match (parseDurationYaml v).filter (0 < ·) with
    | some s => (some s, [])
    | none => (none, [forkWarning name "invalid throttle value, ignoring"])

def runOnMoments (raw : RawFork) (name : String) :
    List ForkRunOn × List String :=
  match raw.runOn with
  | none => (defaultRunOn, [])
  | some entries =>
      let parsed := parseEntries parseRunOnEntry entries
      if parsed.1.isEmpty then
        (defaultRunOn, parsed.2 ++ [forkWarning name
          "run_on has no valid triggers; using the defaults"])
      else parsed

end RawFork

/-- The trigger can fire. -/
def ForkRunOn.isSupported : ForkRunOn → Bool
  | .idle _ | .contextTokens _ | .contextUsedPct _ | .contextLeft _ => true
  | _ => false

/-- The labels of the triggers that cannot fire, each once. -/
def unsupportedLabels (runOn : List ForkRunOn) : List String :=
  ((runOn.filter fun t => !t.isSupported).map ForkRunOn.label).foldl
    (fun out label => if out.contains label then out else out ++ [label]) []

/-- The warnings about triggers that never fire. -/
def supportWarnings (runOn : List ForkRunOn) (name : String) : List String :=
  (unsupportedLabels runOn).map (fun label => forkWarning name
      ("run_on '" ++ label ++ "' is not supported since v0.5, ignoring"))
    ++ if runOn.any ForkRunOn.isSupported then [] else [forkWarning name
      "no supported run_on moments (idle / context_*); it will never fire"]

namespace RawFork

def afterNames (raw : RawFork) (name : String) : List String × List String :=
  match raw.after with
  | none => ([], [])
  | some v => parseAfter v name

def overlaps (raw : RawFork) (name : String) : Bool × List String :=
  match raw.overlap with
  | none => (false, [])
  | some (.bool b) => (b, [])
  | some _ => (false,
      [forkWarning name "overlap must be true or false; using false"])

def tagList (raw : RawFork) (name : String) : List String × List String :=
  match raw.tags with
  | none => ([], [])
  | some v => parseTagsYaml v name

/-- The warnings about keys that are ignored. -/
def ignoredWarnings (raw : RawFork) (name : String) : List String :=
  (if raw.rag.isSome || raw.triggers.isSome then
      [forkWarning name "RAG keys are not part of the fork format, ignoring"]
    else [])
  ++ (if raw.delivery.isSome || raw.model.isSome then
      [forkWarning name ("v0.5 ignores 'delivery' and 'model' — delivery is native "
        ++ "and the fork inherits the session's model")]
    else [])
  ++ if raw.allowedTools.isSome || raw.permissionMode.isSome then
      [forkWarning name ("v0.5 ignores 'allowed_tools' and 'permission_mode' — a fork "
        ++ "inherits the session's permissions")]
    else []

/-- The definition of a marked fork, with the warnings of its
fallbacks. -/
def interpret (raw : RawFork) (name : String) : ForkDef × List String :=
  let throttle := raw.throttleSecs name
  let runOn := raw.runOnMoments name
  let after := raw.afterNames name
  let overlap := raw.overlaps name
  let tags := raw.tagList name
  ({ description := raw.description.filter fun d => trim d.toList ≠ []
     runOn := runOn.1
     throttleSecs := throttle.1
     after := after.1
     overlap := overlap.1
     tags := tags.1 },
    raw.ignoredWarnings name ++ throttle.2 ++ runOn.2
      ++ supportWarnings runOn.1 name ++ after.2 ++ overlap.2 ++ tags.2)

end RawFork

-- ============================================================ the file

/-- The YAML crate: the value a text reads as, and the text deserialised
into the frontmatter's fields. -/
structure SerdeYaml where
  value : String → Option Yaml
  rawFork : String → Option RawFork

/-- Parse a fork file's full content. -/
def parseForkFile (serde : SerdeYaml) (name content : String) : ForkParse :=
  match splitFrontmatter content.toList with
  | (none, _) => .notFork false
  | (some yaml, body) => match serde.rawFork (String.ofList yaml) with
    | none => .invalid
    | some raw =>
        if raw.isMarked then
          let parsed := raw.interpret name
          .fork ⟨parsed.1, String.ofList body, parsed.2⟩
        else .notFork (!raw.isOptOut && raw.hasForkLikeKeys)

/-- A throttle that is read is positive: 0 is not a valid value. -/
theorem RawFork.throttleSecs_pos {raw : RawFork} {name : String}
    {throttle : Nat} (h : (raw.throttleSecs name).1 = some throttle) :
    0 < throttle := by
  unfold throttleSecs at h
  split at h
  next => cases h
  next =>
    split at h
    next s hs =>
      obtain ⟨-, hpos⟩ := Option.filter_eq_some_iff.1 hs
      rw [← Option.some.inj h]
      simpa using hpos
    next => cases h

theorem throttle_pos_of_parsed {serde : SerdeYaml} {name content : String}
    {parsed : ParsedFork} (h : parseForkFile serde name content = .fork parsed)
    {throttle : Nat} (hthrottle : parsed.def.throttleSecs = some throttle) :
    0 < throttle := by
  unfold parseForkFile at h
  split at h
  next => cases h
  next =>
    split at h
    next => cases h
    next raw =>
      split at h
      next =>
        cases h
        exact RawFork.throttleSecs_pos hthrottle
      next => cases h

end Autofork
