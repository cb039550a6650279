/-
Configuration: a project's `.autofork/config.toml` overrides the user's,
which overrides the built-in defaults. A key that only makes sense
globally is ignored in a project, with a warning.

Most keys are taken as any value and checked here. Four fields are typed,
two of them filters, and a value of another type fails the
deserialisation of the whole file.
-/
import Autofork.Discovery
import Autofork.Duration
import Autofork.Lib.SortedMap
import Autofork.Lib.Toml
import Mathlib.Data.String.Basic

namespace Autofork

open Lib

-- ============================================================= layers

/-- Effective configuration after layering. -/
structure LoadedConfig extends Config where
  /-- The daemon exits after this long with nothing to do. -/
  quietPeriodSecs : Nat := 1200

/-- The shape of a layer. Deprecated keys are declared, so that their
presence can be warned about. -/
structure RawConfig where
  defaultIdleDeadline : Option Toml
  sessionTimeout : Option Toml
  quietPeriod : Option Toml
  wakeDebounce : Option Toml
  enableTags : Option (List String)
  disableTags : Option (List String)
  tagThrottles : SortedMap String Toml
  concurrency : Option Toml
  forkTimeout : Option Toml
  runTimeout : Option Toml
  claudeBin : Option Toml
  contextWindow : Option Toml
  models : SortedMap String Toml
  reportTtl : Option Toml
  pollBudgetChars : Option Toml
  permissionMode : Option Toml
  isolation : Option Toml

/-- An optional list of texts; none when the field is rejected. -/
def optStrings : Option Toml → Option (Option (List String))
  | none => some none
  | some v => v.asStrings.map some

/-- A map that may be absent; none when the field is rejected. -/
def defaultTable : Option Toml → Option (SortedMap String Toml)
  | none => some .empty
  | some v => v.asTable.map .ofEntries

/-- Deserialise a document; none when a typed field rejects its value. -/
def RawConfig.ofTable (doc : List (String × Toml)) : Option RawConfig := do
  let enableTags ← optStrings (doc.lookup "enable_tags")
  let disableTags ← optStrings (doc.lookup "disable_tags")
  let tagThrottles ← defaultTable (doc.lookup "tag_throttles")
  let models ← defaultTable (doc.lookup "models")
  some
    { defaultIdleDeadline := doc.lookup "default_idle_deadline"
      sessionTimeout := doc.lookup "session_timeout"
      quietPeriod := doc.lookup "quiet_period"
      wakeDebounce := doc.lookup "wake_debounce"
      enableTags
      disableTags
      tagThrottles
      concurrency := doc.lookup "concurrency"
      forkTimeout := doc.lookup "fork_timeout"
      runTimeout := doc.lookup "run_timeout"
      claudeBin := doc.lookup "claude_bin"
      contextWindow := doc.lookup "context_window"
      models
      reportTtl := doc.lookup "report_ttl"
      pollBudgetChars := doc.lookup "poll_budget_chars"
      permissionMode := doc.lookup "permission_mode"
      isolation := doc.lookup "isolation" }

/-- Keys ignored at project level. -/
def globalOnly : List String := ["quiet_period"]

def parseTomlDuration (v : Toml) (key : String) : Option Nat × List String :=
  let parsed := match v with
    | .integer n => if 0 ≤ n then some n.toNat else none
    | .string s => parseDurationStr s
    | _ => none
  (parsed, if parsed.isNone then
      ["invalid duration for '" ++ key ++ "', ignoring"] else [])

/-- A layer's duration for a key. -/
def layerDuration (projectLevel : Bool) (v : Option Toml) (key : String) :
    Option Nat × List String :=
  match v with
  | none => (none, [])
  | some v =>
      if projectLevel && globalOnly.contains key then
        (none, ["'" ++ key ++ "' is global-only; ignoring project value"])
      else parseTomlDuration v key

/-- The name of a tag's throttle in a warning. -/
def throttleKey (tag : String) : String := "tag_throttles." ++ tag

def deprecatedWarning (present : Bool) (key : String) : List String :=
  if present then ["'" ++ key ++ "' is no longer used since v0.5 "
    ++ "(forks run as fork subagents), ignoring"] else []

/-- The warnings about deprecated keys, one each. -/
def RawConfig.deprecatedWarnings (raw : RawConfig) : List String :=
  deprecatedWarning raw.concurrency.isSome "concurrency"
  ++ deprecatedWarning raw.forkTimeout.isSome "fork_timeout"
  ++ deprecatedWarning raw.runTimeout.isSome "run_timeout"
  ++ deprecatedWarning raw.claudeBin.isSome "claude_bin"
  ++ deprecatedWarning raw.contextWindow.isSome "context_window"
  ++ deprecatedWarning (!raw.models.entries.isEmpty) "models"
  ++ deprecatedWarning raw.reportTtl.isSome "report_ttl"
  ++ deprecatedWarning raw.pollBudgetChars.isSome "poll_budget_chars"
  ++ deprecatedWarning raw.permissionMode.isSome "permission_mode"
  ++ deprecatedWarning raw.isolation.isSome "isolation"

/-- Lay a layer over the configuration so far. -/
def applyLayer (cfg : LoadedConfig) (raw : RawConfig) (projectLevel : Bool) :
    LoadedConfig × List String :=
  let idle := layerDuration projectLevel raw.defaultIdleDeadline
    "default_idle_deadline"
  let session := layerDuration projectLevel raw.sessionTimeout
    "session_timeout"
  let quiet := layerDuration projectLevel raw.quietPeriod "quiet_period"
  let debounce := layerDuration projectLevel raw.wakeDebounce "wake_debounce"
  ({ defaultIdleDeadlineSecs := idle.1.getD cfg.defaultIdleDeadlineSecs
     sessionTimeoutSecs := session.1.getD cfg.sessionTimeoutSecs
     quietPeriodSecs := quiet.1.getD cfg.quietPeriodSecs
     wakeDebounceSecs := debounce.1.getD cfg.wakeDebounceSecs
     enableTags := raw.enableTags <|> cfg.enableTags
     disableTags := raw.disableTags <|> cfg.disableTags
     -- the project's throttles for the tags it names; the rest are kept
     tagThrottles := insertEach
       (fun tag v => (parseTomlDuration v (throttleKey tag)).1)
       raw.tagThrottles.entries cfg.tagThrottles },
    idle.2 ++ session.2 ++ quiet.2 ++ debounce.2
      ++ raw.tagThrottles.entries.flatMap
        (fun e => (parseTomlDuration e.2 (throttleKey e.1)).2)
      ++ raw.deprecatedWarnings)

-- ============================================================== files

/-- The TOML crate: the document a text is, and the text deserialised into
a layer, or the error's text. -/
structure TomlCrate where
  document : String → Option (List (String × Toml))
  rawConfig : String → Except String RawConfig

/-- What path comparison sees: whether the path is absolute, and its
parts. Empty parts do not count, nor does a "." but in front. -/
def pathParts (path : Path) : Bool × List (List Char) :=
  let parts := (path.toList.splitOn '/').filter (· ≠ [])
  let named (ps : List (List Char)) := ps.filter (· ≠ ['.'])
  if path.toList.head? = some '/' then (true, named parts)
  else (false, parts.take 1 ++ named (parts.drop 1))

section
variable (crate : TomlCrate) (readToString : Path → Option String)

/-- A file that cannot be read is no layer; one that is no layer's text
is warned about. -/
def loadLayer (path : Path) : Option RawConfig × List String :=
  match readToString path with
  | none => (none, [])
  | some content => match crate.rawConfig content with
    | .ok raw => (some raw, [])
    | .error e => (none, ["invalid config at " ++ path ++ ": " ++ e])

/-- Lay a file's layer over the configuration so far. -/
def loadOver (cfg : LoadedConfig × List String) (path : Path)
    (projectLevel : Bool) : LoadedConfig × List String :=
  match loadLayer crate readToString path with
  | (none, warnings) => (cfg.1, cfg.2 ++ warnings)
  | (some raw, warnings) =>
      let applied := applyLayer cfg.1 raw projectLevel
      (applied.1, cfg.2 ++ warnings ++ applied.2)

/-- Where a project's layer is. -/
def projectConfig (root : Path) : Path := joinPath root ".autofork/config.toml"

/-- Load the effective configuration from explicit layer paths. -/
def loadConfigAt (projectRoot : Option Path) (userConfig : Path) :
    LoadedConfig × List String :=
  let user := loadOver crate readToString ({}, []) userConfig false
  match projectRoot with
  | none => user
  | some root =>
      let path := projectConfig root
      if pathParts path = pathParts userConfig then user
      else loadOver crate readToString user path true

end

end Autofork
