/-
Configuration, key by key: the project's value, else the user's, else
the default.

A layer's own check of one value touches no other key, so that what is
loaded is layered key by key over the layers that deserialise
(`at_loadConfigAt`). A layer with an ill-typed filter, or an ill-typed
table, does not: it is left out as a whole, and the law holds exactly
when that loses nothing (`load_config_layers_iff`).
-/
import Autofork.Config

namespace Autofork

open Lib

-- ================================================================ keys

/-- A key of the configuration; each tag's throttle is one. -/
inductive ConfigKey
  | defaultIdleDeadline
  | sessionTimeout
  | quietPeriod
  | wakeDebounce
  | enableTags
  | disableTags
  | tagThrottle (tag : String)
  deriving DecidableEq, Repr

inductive ConfigValue
  | secs (n : Nat)
  | tags (tags : List String)
  deriving DecidableEq, Repr

/-- What a configuration has for a key. A filter may be unset, and a tag
may have no throttle. -/
def LoadedConfig.at (cfg : LoadedConfig) : ConfigKey → Option ConfigValue
  | .defaultIdleDeadline => some (.secs cfg.defaultIdleDeadlineSecs)
  | .sessionTimeout => some (.secs cfg.sessionTimeoutSecs)
  | .quietPeriod => some (.secs cfg.quietPeriodSecs)
  | .wakeDebounce => some (.secs cfg.wakeDebounceSecs)
  | .enableTags => cfg.enableTags.map .tags
  | .disableTags => cfg.disableTags.map .tags
  | .tagThrottle tag => (cfg.tagThrottles.lookup tag).map .secs

/-- A document's valid duration for a key. -/
def secsAt (doc : List (String × Toml)) (key : String) :
    Option ConfigValue :=
  ((doc.lookup key).bind fun v => (parseTomlDuration v key).1).map .secs

/-- A document's valid filter for a key. -/
def tagsAt (doc : List (String × Toml)) (key : String) :
    Option ConfigValue :=
  ((doc.lookup key).bind Toml.asStrings).map .tags

/-- A document's valid throttle for a tag. -/
def throttleAt (doc : List (String × Toml)) (tag : String) :
    Option ConfigValue :=
  ((((doc.lookup "tag_throttles").bind Toml.asTable).bind
      fun throttles => throttles.lookup tag).bind
    fun v => (parseTomlDuration v (throttleKey tag)).1).map .secs

/-- The valid value a document gives for a key. -/
def ConfigKey.read (doc : List (String × Toml)) :
    ConfigKey → Option ConfigValue
  | .defaultIdleDeadline => secsAt doc "default_idle_deadline"
  | .sessionTimeout => secsAt doc "session_timeout"
  | .quietPeriod => secsAt doc "quiet_period"
  | .wakeDebounce => secsAt doc "wake_debounce"
  | .enableTags => tagsAt doc "enable_tags"
  | .disableTags => tagsAt doc "disable_tags"
  | .tagThrottle tag => throttleAt doc tag

/-- The valid value a project's document gives for a key that counts
there. -/
def ConfigKey.readProject (doc : List (String × Toml)) (key : ConfigKey) :
    Option ConfigValue :=
  if key = .quietPeriod then none else key.read doc

/-- The law: the project's valid value, else the user's, else the
default. -/
def ConfigKey.layered (user project : Option (List (String × Toml)))
    (key : ConfigKey) : Option ConfigValue :=
  project.bind (fun doc => key.readProject doc)
    <|> user.bind (fun doc => key.read doc)
    <|> LoadedConfig.at {} key

-- ============================================================= layers

/-- The typed fields hold values of their types. -/
def typedLayer (doc : List (String × Toml)) : Bool :=
  (optStrings (doc.lookup "enable_tags")).isSome
    && (optStrings (doc.lookup "disable_tags")).isSome
    && (defaultTable (doc.lookup "tag_throttles")).isSome
    && (defaultTable (doc.lookup "models")).isSome

/-- Leaving out the ill-typed layers does not lose a key's value: what the
user's gives is the default, unless the project overrides it, and what
the project's gives is what is left without it. -/
structure ConfigKey.Lossless (user project : Option (List (String × Toml)))
    (key : ConfigKey) : Prop where
  ofUser : ∀ doc, user = some doc → typedLayer doc = false →
    project.bind (fun doc => key.readProject doc) = none →
      key.read doc = none ∨ key.read doc = LoadedConfig.at {} key
  ofProject : ∀ doc, project = some doc → typedLayer doc = false →
    ∀ v, key.readProject doc = some v →
      some v = ((user.filter typedLayer).bind (fun doc => key.read doc)
        <|> LoadedConfig.at {} key)

/-- What the loader assumes of the TOML crate: a document is deserialised
field by field, and a typed field rejects a value of another type. -/
def TomlCrate.Typed (crate : TomlCrate) : Prop :=
  ∀ text, (crate.rawConfig text).toOption
    = (crate.document text).bind RawConfig.ofTable

section
variable (crate : TomlCrate) (readToString : Path → Option String)

/-- The document at a path. -/
def layerDoc (path : Path) : Option (List (String × Toml)) :=
  (readToString path).bind crate.document

/-- A project's document, unless its file is the user's. -/
def projectDoc (projectRoot : Option Path) (userConfig : Path) :
    Option (List (String × Toml)) :=
  projectRoot.bind fun root =>
    if pathParts (projectConfig root) = pathParts userConfig then none
    else layerDoc crate readToString (projectConfig root)

end

-- ============================================================= one layer

private theorem isSome_ofTable (doc : List (String × Toml)) :
    (RawConfig.ofTable doc).isSome = typedLayer doc := by
  unfold RawConfig.ofTable typedLayer
  cases optStrings (doc.lookup "enable_tags") with
  | none => rfl
  | some enable =>
      cases optStrings (doc.lookup "disable_tags") with
      | none => rfl
      | some disable =>
          cases defaultTable (doc.lookup "tag_throttles") with
          | none => rfl
          | some throttles =>
              cases defaultTable (doc.lookup "models") <;> rfl

/-- The fields of a layer are the values of their keys. -/
private theorem ofTable_fields {doc : List (String × Toml)}
    {raw : RawConfig} (h : RawConfig.ofTable doc = some raw) :
    raw.defaultIdleDeadline = doc.lookup "default_idle_deadline"
      ∧ raw.sessionTimeout = doc.lookup "session_timeout"
      ∧ raw.quietPeriod = doc.lookup "quiet_period"
      ∧ raw.wakeDebounce = doc.lookup "wake_debounce"
      ∧ optStrings (doc.lookup "enable_tags") = some raw.enableTags
      ∧ optStrings (doc.lookup "disable_tags") = some raw.disableTags
      ∧ defaultTable (doc.lookup "tag_throttles")
        = some raw.tagThrottles := by
  unfold RawConfig.ofTable at h
  simp only [Option.bind_eq_bind, Option.bind_eq_some_iff,
    Option.some.injEq] at h
  obtain ⟨enable, henable, disable, hdisable, throttles, hthrottles, models,
    -, rfl⟩ := h
  exact ⟨rfl, rfl, rfl, rfl, henable, hdisable, hthrottles⟩

/-- A duration that counts at either level. -/
private theorem layerDuration_of_local (projectLevel : Bool)
    (doc : List (String × Toml)) {key : String}
    (hkey : globalOnly.contains key = false) :
    (layerDuration projectLevel (doc.lookup key) key).1.map .secs
      = secsAt doc key := by
  unfold layerDuration secsAt
  cases doc.lookup key with
  | none => rfl
  | some v =>
      dsimp only
      rw [hkey, Bool.and_false]
      rfl

/-- A duration that does not count in a project. -/
private theorem layerDuration_of_global (projectLevel : Bool)
    (doc : List (String × Toml)) {key : String}
    (hkey : globalOnly.contains key = true) :
    (layerDuration projectLevel (doc.lookup key) key).1.map .secs
      = if projectLevel then none else secsAt doc key := by
  unfold layerDuration secsAt
  cases doc.lookup key with
  | none => cases projectLevel <;> rfl
  | some v =>
      dsimp only
      rw [hkey, Bool.and_true]
      cases projectLevel <;> rfl

private theorem secs_getD (o : Option Nat) (n : Nat) :
    some (ConfigValue.secs (o.getD n)) = (o.map .secs <|> some (.secs n)) := by
  cases o <;> rfl

private theorem map_orElse {α β : Type} (f : α → β) (o o' : Option α) :
    (o <|> o').map f = (o.map f <|> o'.map f) := by
  cases o <;> rfl

private theorem tags_of_optStrings {v : Option Toml}
    {tags : Option (List String)} (h : optStrings v = some tags) :
    v.bind Toml.asStrings = tags := by
  cases v with
  | none => exact Option.some.inj h
  | some v =>
      change v.asStrings.map some = some tags at h
      cases htags : v.asStrings with
      | none => simp [htags] at h
      | some ts => simpa [htags] using h

private theorem get_of_defaultTable {v : Option Toml}
    {throttles : SortedMap String Toml}
    (h : defaultTable v = some throttles) (tag : String) :
    throttles.get tag
      = (v.bind Toml.asTable).bind fun throttles => throttles.lookup tag := by
  cases v with
  | none =>
      rw [← Option.some.inj h]
      rfl
  | some v =>
      change v.asTable.map SortedMap.ofEntries = some throttles at h
      cases htable : v.asTable with
      | none => simp [htable] at h
      | some es =>
          rw [htable, Option.map_some, Option.some.injEq] at h
          simp [htable, ← h]

/-- A layer changes the keys it has a valid value for, each to that
value, and no others. -/
theorem at_applyLayer {doc : List (String × Toml)} {raw : RawConfig}
    (h : RawConfig.ofTable doc = some raw) (cfg : LoadedConfig)
    (projectLevel : Bool) (key : ConfigKey) :
    (applyLayer cfg raw projectLevel).1.at key
      = ((if projectLevel then key.readProject doc else key.read doc)
        <|> cfg.at key) := by
  obtain ⟨hidle, hsession, hquiet, hdebounce, henable, hdisable, hthrottles⟩ :=
    ofTable_fields h
  have hlocal : key ≠ .quietPeriod →
      (if projectLevel then key.readProject doc else key.read doc)
        = key.read doc := by
    intro hkey
    unfold ConfigKey.readProject
    rw [if_neg hkey, ite_self]
  cases key with
  | defaultIdleDeadline =>
      rw [hlocal (by decide)]
      refine (secs_getD _ cfg.defaultIdleDeadlineSecs).trans ?_
      rw [hidle, layerDuration_of_local _ _ (by decide)]
      rfl
  | sessionTimeout =>
      rw [hlocal (by decide)]
      refine (secs_getD _ cfg.sessionTimeoutSecs).trans ?_
      rw [hsession, layerDuration_of_local _ _ (by decide)]
      rfl
  | quietPeriod =>
      refine (secs_getD _ cfg.quietPeriodSecs).trans ?_
      rw [hquiet, layerDuration_of_global _ _ (by decide)]
      cases projectLevel <;> rfl
  | wakeDebounce =>
      rw [hlocal (by decide)]
      refine (secs_getD _ cfg.wakeDebounceSecs).trans ?_
      rw [hdebounce, layerDuration_of_local _ _ (by decide)]
      rfl
  | enableTags =>
      rw [hlocal (by decide)]
      show (raw.enableTags <|> cfg.enableTags).map ConfigValue.tags = _
      rw [map_orElse, ← tags_of_optStrings henable]
      rfl
  | disableTags =>
      rw [hlocal (by decide)]
      show (raw.disableTags <|> cfg.disableTags).map ConfigValue.tags = _
      rw [map_orElse, ← tags_of_optStrings hdisable]
      rfl
  | tagThrottle tag =>
      rw [hlocal (by simp)]
      show ((insertEach (fun tag v => (parseTomlDuration v (throttleKey tag)).1)
        raw.tagThrottles.entries cfg.tagThrottles).lookup tag).map
          ConfigValue.secs = _
      rw [SortedMap.lookup_insertEach, map_orElse,
        get_of_defaultTable hthrottles]
      rfl

-- ============================================================ layering

section
variable {crate : TomlCrate} (hcrate : crate.Typed)
  (readToString : Path → Option String)
include hcrate

/-- A file's layer is its document, deserialised. -/
private theorem loadLayer_fst (path : Path) :
    (loadLayer crate readToString path).1
      = (layerDoc crate readToString path).bind RawConfig.ofTable := by
  unfold loadLayer layerDoc
  cases readToString path with
  | none => rfl
  | some content =>
      rw [Option.bind_some, ← hcrate content]
      dsimp only
      cases crate.rawConfig content <;> rfl

/-- A file's layer counts, key by key, unless it is ill-typed. -/
private theorem at_loadOver (cfg : LoadedConfig × List String) (path : Path)
    (projectLevel : Bool) (key : ConfigKey) :
    (loadOver crate readToString cfg path projectLevel).1.at key
      = (((layerDoc crate readToString path).filter typedLayer).bind
          (fun doc => if projectLevel then key.readProject doc
            else key.read doc)
        <|> cfg.1.at key) := by
  have hlayer := loadLayer_fst hcrate readToString path
  unfold loadOver
  cases hload : loadLayer crate readToString path with
  | mk loaded warnings =>
      rw [hload] at hlayer
      cases hdoc : layerDoc crate readToString path with
      | none =>
          rw [hdoc] at hlayer
          change loaded = none at hlayer
          subst hlayer
          rfl
      | some doc =>
          rw [hdoc, Option.bind_some] at hlayer
          change loaded = RawConfig.ofTable doc at hlayer
          have htyped := isSome_ofTable doc
          cases loaded with
          | none =>
              rw [← hlayer] at htyped
              have hfalse : typedLayer doc = false := htyped.symm
              rw [Option.filter_some, hfalse]
              rfl
          | some raw =>
              rw [← hlayer] at htyped
              have htrue : typedLayer doc = true := htyped.symm
              rw [Option.filter_some, htrue]
              exact at_applyLayer hlayer.symm cfg.1 projectLevel key

/-- The law holds of the layers that are not ill-typed. -/
theorem at_loadConfigAt (projectRoot : Option Path) (userConfig : Path)
    (key : ConfigKey) :
    (loadConfigAt crate readToString projectRoot userConfig).1.at key
      = key.layered ((layerDoc crate readToString userConfig).filter typedLayer)
          ((projectDoc crate readToString projectRoot userConfig).filter
            typedLayer) := by
  unfold loadConfigAt projectDoc ConfigKey.layered
  have huser := at_loadOver hcrate readToString ({}, []) userConfig false key
  cases projectRoot with
  | none => exact huser
  | some root =>
      dsimp only
      rw [Option.bind_some]
      split
      · exact huser
      · rw [at_loadOver hcrate, huser]
        rfl

end

/-- Leaving out the ill-typed layers, key by key. -/
private theorem layered_filter_iff
    (user project : Option (List (String × Toml))) (key : ConfigKey) :
    key.layered (user.filter typedLayer) (project.filter typedLayer)
        = key.layered user project
      ↔ key.Lossless user project := by
  constructor
  · intro h
    unfold ConfigKey.layered at h
    constructor
    · rintro doc rfl hbad hnone
      rw [hnone, Option.filter_some, hbad] at h
      cases hread : key.read doc with
      | none => exact Or.inl rfl
      | some v =>
          refine Or.inr ?_
          have hleft : (project.filter typedLayer).bind
              (fun doc => key.readProject doc) = none := by
            cases project with
            | none => rfl
            | some p =>
                rw [Option.filter_some]
                split
                · exact hnone
                · rfl
          rw [hleft] at h
          simpa [hread] using h.symm
    · rintro doc rfl hbad v hv
      rw [Option.filter_some, hbad] at h
      simpa [hv] using h.symm
  · intro h
    unfold ConfigKey.layered
    -- below the project, the user's layer loses nothing
    have huser : project.bind (fun doc => key.readProject doc) = none →
        ((user.filter typedLayer).bind (fun doc => key.read doc)
            <|> LoadedConfig.at {} key)
          = (user.bind (fun doc => key.read doc)
            <|> LoadedConfig.at {} key) := by
      intro hnone
      cases user with
      | none => rfl
      | some doc =>
          cases hbad : typedLayer doc with
          | true => rw [Option.filter_some, hbad]; rfl
          | false =>
              rw [Option.filter_some, hbad]
              rcases h.ofUser doc rfl hbad hnone with hread | hread
              · simp [hread]
              · cases hdefault : LoadedConfig.at {} key <;>
                  simp [hread, hdefault]
    cases project with
    | none => exact huser rfl
    | some doc =>
        have hbind : (some doc).bind (fun doc => key.readProject doc)
            = key.readProject doc := rfl
        rw [hbind] at huser ⊢
        cases hbad : typedLayer doc with
        | true =>
            rw [Option.filter_some, hbad, if_pos rfl, hbind]
            cases hread : key.readProject doc with
            | none => exact huser hread
            | some v => rfl
        | false =>
            rw [Option.filter_some, hbad]
            cases hread : key.readProject doc with
            | none => exact huser hread
            | some v => exact (h.ofProject doc rfl hbad v hread).symm

/-- The configuration is layered key by key exactly when leaving out the
ill-typed layers loses no key's value. -/
theorem load_config_layers_iff (crate : TomlCrate) (hcrate : crate.Typed)
    (readToString : Path → Option String) (projectRoot : Option Path)
    (userConfig : Path) :
    (∀ key : ConfigKey,
        (loadConfigAt crate readToString projectRoot userConfig).1.at key
          = key.layered (layerDoc crate readToString userConfig)
            (projectDoc crate readToString projectRoot userConfig))
      ↔ ∀ key : ConfigKey,
        key.Lossless (layerDoc crate readToString userConfig)
          (projectDoc crate readToString projectRoot userConfig) := by
  refine forall_congr' fun key => ?_
  rw [at_loadConfigAt hcrate]
  exact layered_filter_iff _ _ key

-- ========================================================= two examples

/-- A crate that reads these texts. -/
def TomlCrate.reading (docs : List (String × List (String × Toml))) :
    TomlCrate where
  document text := docs.lookup text
  rawConfig text := (((docs.lookup text).bind RawConfig.ofTable).map
    Except.ok).getD (.error "invalid type")

theorem TomlCrate.typed_reading
    (docs : List (String × List (String × Toml))) :
    (reading docs).Typed := by
  intro text
  show (((((docs.lookup text).bind RawConfig.ofTable).map Except.ok).getD
    (.error "invalid type") : Except String RawConfig)).toOption
      = (docs.lookup text).bind RawConfig.ofTable
  cases (docs.lookup text).bind RawConfig.ofTable <;> rfl

private def userText : String :=
  "default_idle_deadline = \"5m\"\nquiet_period = \"30m\"\n"

private def projectText : String :=
  "default_idle_deadline = 120\nquiet_period = \"1h\"\n"

private def userTable : List (String × Toml) :=
  [("default_idle_deadline", .string "5m"), ("quiet_period", .string "30m")]

private def projectTable : List (String × Toml) :=
  [("default_idle_deadline", .integer 120), ("quiet_period", .string "1h")]

/-- A project sets its own deadline, and the quiet period in vain. -/
theorem load_config_layers_iff_two :
    (loadConfigAt
        (.reading [(userText, userTable), (projectText, projectTable)])
        (fun path => some (if path = "/u/config.toml" then userText
          else projectText))
        (some "/p") "/u/config.toml").1.at .defaultIdleDeadline
      = some (.secs 120)
    ∧ (loadConfigAt
        (.reading [(userText, userTable), (projectText, projectTable)])
        (fun path => some (if path = "/u/config.toml" then userText
          else projectText))
        (some "/p") "/u/config.toml").1.at .quietPeriod
      = some (.secs 1800) := by
  have hne : projectText ≠ userText := by decide
  have huser : layerDoc
      (.reading [(userText, userTable), (projectText, projectTable)])
      (fun path => some (if path = "/u/config.toml" then userText
        else projectText)) "/u/config.toml" = some userTable := by
    simp [layerDoc, TomlCrate.reading]
  have hproject : projectDoc
      (.reading [(userText, userTable), (projectText, projectTable)])
      (fun path => some (if path = "/u/config.toml" then userText
        else projectText)) (some "/p") "/u/config.toml"
        = some projectTable := by
    have hpath : pathParts (projectConfig "/p") ≠ pathParts "/u/config.toml" := by
      decide +kernel
    have hother : projectConfig "/p" ≠ "/u/config.toml" := by
      decide +kernel
    simp [projectDoc, layerDoc, TomlCrate.reading, hpath, hother,
      lookup_cons_ite, hne]
  have hlossless : ∀ key : ConfigKey,
      key.Lossless (some userTable) (some projectTable) := by
    have htyped : typedLayer userTable = true ∧ typedLayer projectTable = true := by
      decide
    intro key
    constructor
    · rintro doc hdoc hbad
      rw [← Option.some.inj hdoc, htyped.1] at hbad
      cases hbad
    · rintro doc hdoc hbad
      rw [← Option.some.inj hdoc, htyped.2] at hbad
      cases hbad
  have hlaw := (load_config_layers_iff
    (.reading [(userText, userTable), (projectText, projectTable)])
    (TomlCrate.typed_reading _)
    (fun path => some (if path = "/u/config.toml" then userText
      else projectText)) (some "/p") "/u/config.toml").2
  rw [huser, hproject] at hlaw
  refine ⟨(hlaw hlossless .defaultIdleDeadline).trans ?_,
    (hlaw hlossless .quietPeriod).trans ?_⟩
  · decide +kernel
  · decide +kernel

/-- A filter that is no list loses the deadline next to it. -/
theorem load_config_layer_lost :
    ∃ (crate : TomlCrate) (readToString : Path → Option String),
      crate.Typed
      ∧ layerDoc crate readToString "/home/u/.autofork/config.toml"
        = some [("default_idle_deadline", .integer 120),
          ("enable_tags", .string "ci")]
      ∧ (loadConfigAt crate readToString none
          "/home/u/.autofork/config.toml").1.at .defaultIdleDeadline
        = some (.secs 600)
      ∧ ConfigKey.layered
          (layerDoc crate readToString "/home/u/.autofork/config.toml") none
          .defaultIdleDeadline
        = some (.secs 120) := by
  have hdoc : layerDoc
      (.reading [("default_idle_deadline = 120\nenable_tags = \"ci\"\n",
        [("default_idle_deadline", .integer 120),
          ("enable_tags", .string "ci")])])
      (fun _ => some "default_idle_deadline = 120\nenable_tags = \"ci\"\n")
      "/home/u/.autofork/config.toml"
        = some [("default_idle_deadline", .integer 120),
          ("enable_tags", .string "ci")] := by
    simp [layerDoc, TomlCrate.reading]
  have hbad : typedLayer [("default_idle_deadline", .integer 120),
      ("enable_tags", .string "ci")] = false := by
    decide
  refine ⟨_, _, TomlCrate.typed_reading _, hdoc, ?_, ?_⟩
  · rw [at_loadConfigAt (TomlCrate.typed_reading _), hdoc,
      Option.filter_some, hbad]
    rfl
  · rw [hdoc]
    decide

end Autofork
