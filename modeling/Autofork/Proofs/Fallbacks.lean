/-
A marked fork, whatever its frontmatter says.

Each key of the definition is read from its own field alone: keys next
to it change neither its value nor its warnings
(`interpret_only`). What is invalid warns and falls back to the key's
default. Two fields are typed, though, and there a value of another type
fails the deserialisation: the file is no fork at all. It is kept
exactly when those two hold values of their types
(`marked_fork_kept_iff`).
-/
import Autofork.ForkFile

namespace Autofork

open Lib

-- ================================================================ keys

/-- The keys that make up a definition. -/
inductive ForkKey
  | description
  | runOn
  | throttle
  | after
  | overlap
  | tags
  deriving DecidableEq, Repr

def ForkKey.name : ForkKey → String
  | .description => "description"
  | .runOn => "run_on"
  | .throttle => "throttle"
  | .after => "after"
  | .overlap => "overlap"
  | .tags => "tags"

/-- Two definitions have the same value for a key. -/
def ForkDef.SameAt (d d' : ForkDef) : ForkKey → Prop
  | .description => d.description = d'.description
  | .runOn => d.runOn = d'.runOn
  | .throttle => d.throttleSecs = d'.throttleSecs
  | .after => d.after = d'.after
  | .overlap => d.overlap = d'.overlap
  | .tags => d.tags = d'.tags

/-- The value is not one the key takes. A null stands for none. -/
def ForkKey.Invalid (name : String) (v : Yaml) : ForkKey → Prop
  | .description => v ≠ .null ∧ ∀ s, v ≠ .string s
  | .runOn => v ≠ .null
      ∧ ∀ items, v = .sequence items → ∀ e ∈ items, (parseRunOnEntry e).1 = none
  | .throttle => v ≠ .null
      ∧ (parseDurationYaml v = none ∨ parseDurationYaml v = some 0)
  | .after => v ≠ .null ∧ (∀ items, v ≠ .sequence items)
      ∧ (parseAfterEntry name v).1 = none
  | .overlap => v ≠ .null ∧ ∀ b, v ≠ .bool b
  | .tags => v ≠ .null ∧ (∀ s, v ≠ .string s) ∧ ∀ items, v ≠ .sequence items

/-- One item of a list is not what the key takes. -/
def ForkKey.InvalidItem (name : String) (e : Yaml) : ForkKey → Prop
  | .runOn => (parseRunOnEntry e).1 = none
  | .after => (parseAfterEntry name e).1 = none
  | .tags => ∀ s, e ≠ .string s
  | _ => False

/-- The warnings about one item of a list. -/
def ForkKey.itemWarnings (name : String) (e : Yaml) : ForkKey → List String
  | .runOn => (parseRunOnEntry e).2
  | .after => (parseAfterEntry name e).2
  | .tags => (parseTagsEntry name e).2
  | _ => []

/-- The mapping with every other key left out. -/
def ForkKey.only (key : ForkKey) (entries : List (Yaml × Yaml)) :
    List (Yaml × Yaml) :=
  entries.filter fun e =>
    Yaml.keyOf e == some "fork" || Yaml.keyOf e == some key.name

/-- The definition and the warnings of a marked mapping. -/
def readFork (name : String) (entries : List (Yaml × Yaml)) :
    Option (ForkDef × List String) :=
  ((RawFork.ofMapping entries).filter RawFork.isMarked).map fun raw =>
    raw.interpret name

/-- The mapping is kept as a fork: every key has the value, and gives the
warnings, it would if the others were absent; an invalid value is
replaced by the default and warned about, and so is an invalid item of a
list. -/
structure Kept (name : String) (entries : List (Yaml × Yaml)) (d : ForkDef)
    (warnings : List String) : Prop where
  alone : ∀ key : ForkKey, ∃ d' warnings',
    readFork name (key.only entries) = some (d', warnings')
      ∧ d.SameAt d' key ∧ warnings' ⊆ warnings
      ∧ ∀ v, Yaml.get entries key.name = some v → key.Invalid name v →
        warnings' ≠ []
  fallback : ∀ (key : ForkKey) v, Yaml.get entries key.name = some v →
    key.Invalid name v → d.SameAt {} key
  items : ∀ (key : ForkKey) items,
    Yaml.get entries key.name = some (.sequence items) → ∀ e ∈ items,
      key.InvalidItem name e →
        key.itemWarnings name e ≠ [] ∧ key.itemWarnings name e ⊆ warnings

/-- The typed fields hold values of their types. -/
def TypedFields (entries : List (Yaml × Yaml)) : Prop :=
  (optString (Yaml.get entries "description")).isSome
    ∧ (optSequence (Yaml.get entries "run_on")).isSome

/-- What the parser assumes of the YAML crate: a mapping is deserialised
field by field, and a typed field rejects a value of another type. -/
def SerdeYaml.Typed (serde : SerdeYaml) : Prop :=
  ∀ text entries, serde.value text = some (.mapping entries) →
    Yaml.StringKeys entries → serde.rawFork text = RawFork.ofMapping entries

-- ============================================================ one key

/-- The fields with every other key's left out. -/
def RawFork.only (raw : RawFork) : ForkKey → RawFork
  | .description => { fork := raw.fork, description := raw.description }
  | .runOn => { fork := raw.fork, runOn := raw.runOn }
  | .throttle => { fork := raw.fork, throttle := raw.throttle }
  | .after => { fork := raw.fork, after := raw.after }
  | .overlap => { fork := raw.fork, overlap := raw.overlap }
  | .tags => { fork := raw.fork, tags := raw.tags }

private theorem get_only (key : ForkKey) (entries : List (Yaml × Yaml))
    (k : String) :
    Yaml.get (key.only entries) k
      = if k = "fork" ∨ k = key.name then Yaml.get entries k else none := by
  unfold Yaml.get ForkKey.only
  rw [List.find?_filter]
  split
  next hk =>
    congr 2
    funext e
    by_cases he : Yaml.keyOf e = some k
    · rcases hk with rfl | rfl <;> simp [he]
    · simp [he]
  next hk =>
    rw [not_or] at hk
    rw [Option.map_eq_none_iff, List.find?_eq_none]
    intro e _ he
    simp only [Bool.or_eq_true, beq_iff_eq, decide_eq_true_eq] at he
    obtain ⟨he | he, he'⟩ := he
    · exact hk.1 (Option.some.inj (he'.symm.trans he))
    · exact hk.2 (Option.some.inj (he'.symm.trans he))

private theorem ofMapping_only {entries : List (Yaml × Yaml)} {raw : RawFork}
    (h : RawFork.ofMapping entries = some raw) (key : ForkKey) :
    RawFork.ofMapping (key.only entries) = some (raw.only key) := by
  unfold RawFork.ofMapping at h ⊢
  cases hdesc : optString (Yaml.get entries "description") with
  | none => simp [hdesc] at h
  | some description =>
      cases hrun : optSequence (Yaml.get entries "run_on") with
      | none => simp [hdesc, hrun] at h
      | some runOn =>
          simp only [hdesc, hrun, Option.some.injEq] at h
          subst h
          cases key <;>
            simp [get_only, ForkKey.name, hdesc, hrun, RawFork.only]

-- ===================================================== interpretation

/-- The warnings a key's own field gives. -/
def RawFork.warningsOf (raw : RawFork) (name : String) :
    ForkKey → List String
  | .description => []
  | .runOn => (raw.runOnMoments name).2
      ++ supportWarnings (raw.runOnMoments name).1 name
  | .throttle => (raw.throttleSecs name).2
  | .after => (raw.afterNames name).2
  | .overlap => (raw.overlaps name).2
  | .tags => (raw.tagList name).2

/-- A fork's warnings are those of its keys. -/
private theorem interpret_warnings (raw : RawFork) (name : String) :
    (raw.interpret name).2
      = raw.ignoredWarnings name ++ raw.warningsOf name .throttle
        ++ raw.warningsOf name .runOn ++ raw.warningsOf name .after
        ++ raw.warningsOf name .overlap ++ raw.warningsOf name .tags := by
  simp only [RawFork.interpret, RawFork.warningsOf, List.append_assoc]

private theorem warningsOf_subset (raw : RawFork) (name : String)
    (key : ForkKey) : raw.warningsOf name key ⊆ (raw.interpret name).2 := by
  rw [interpret_warnings]
  intro w hw
  cases key with
  | description => cases hw
  | _ => simp only [List.mem_append, hw, true_or, or_true]

private theorem warningsOf_only (raw : RawFork) (name : String)
    (key key' : ForkKey) :
    (raw.only key).warningsOf name key'
      = if key' = key then raw.warningsOf name key else [] := by
  cases key <;> cases key' <;> rfl

/-- A key by itself: its value is what it is among the others, and its
warnings are all there are. -/
private theorem interpret_only (raw : RawFork) (name : String)
    (key : ForkKey) :
    (raw.interpret name).1.SameAt ((raw.only key).interpret name).1 key
      ∧ ((raw.only key).interpret name).2 = raw.warningsOf name key := by
  constructor
  · cases key <;> rfl
  · have hignored : (raw.only key).ignoredWarnings name = [] := by
      cases key <;> rfl
    rw [interpret_warnings, hignored]
    simp only [warningsOf_only]
    cases key <;> simp [RawFork.warningsOf]

-- ========================================================== fallbacks

private theorem optValue_of_ne {v : Yaml} (h : v ≠ .null) :
    optValue (some v) = some v := by
  cases v with
  | null => exact absurd rfl h
  | _ => rfl

/-- An item that is dropped is warned about. -/
private theorem itemWarnings_ne_nil {name : String} {e : Yaml}
    {key : ForkKey} (h : key.InvalidItem name e) :
    key.itemWarnings name e ≠ [] := by
  cases key with
  | runOn =>
      have h : (parseRunOnEntry e).1 = none := h
      show (parseRunOnEntry e).2 ≠ []
      unfold parseRunOnEntry at h ⊢
      split
      · split <;> simp_all
      · split <;> simp_all
      · simp
  | after =>
      have h : (parseAfterEntry name e).1 = none := h
      show (parseAfterEntry name e).2 ≠ []
      unfold parseAfterEntry at h ⊢
      split
      · split <;> simp_all
      · dsimp only at h ⊢
        split <;> simp_all
      · simp
  | tags =>
      have hno : ∀ s, e ≠ .string s := h
      show (parseTagsEntry name e).2 ≠ []
      cases e with
      | string s => exact absurd rfl (hno s)
      | _ => exact List.cons_ne_nil _ _
  | _ => cases h

/-- Dropping a dependency adds warnings and forgets none. -/
private theorem pushDep_warnings (name : String) (deps : List String)
    (out : List String × List String) :
    out.2 ⊆ (deps.foldl (pushDep name) out).2 := by
  induction deps generalizing out with
  | nil => exact fun w => id
  | cons dep deps ih =>
      intro w hw
      refine ih _ ?_
      unfold pushDep
      split
      · exact List.mem_append_left _ hw
      · split
        · exact List.mem_append_left _ hw
        · exact hw

section
variable {entries : List (Yaml × Yaml)} {raw : RawFork} (name : String)
  (h : RawFork.ofMapping entries = some raw)
include h

/-- The fields are the values of their keys. -/
private theorem ofMapping_fields :
    optString (Yaml.get entries "description") = some raw.description
      ∧ optSequence (Yaml.get entries "run_on") = some raw.runOn
      ∧ raw.fork = optValue (Yaml.get entries "fork")
      ∧ raw.throttle = optValue (Yaml.get entries "throttle")
      ∧ raw.after = optValue (Yaml.get entries "after")
      ∧ raw.overlap = optValue (Yaml.get entries "overlap")
      ∧ raw.tags = optValue (Yaml.get entries "tags") := by
  unfold RawFork.ofMapping at h
  cases hdesc : optString (Yaml.get entries "description") with
  | none => simp [hdesc] at h
  | some description =>
      cases hrun : optSequence (Yaml.get entries "run_on") with
      | none => simp [hdesc, hrun] at h
      | some runOn =>
          simp only [hdesc, hrun, Option.some.injEq] at h
          subst h
          exact ⟨rfl, rfl, rfl, rfl, rfl, rfl, rfl⟩

/-- An invalid value of a key leaves its default, and a warning. -/
private theorem fallback_of_invalid {key : ForkKey} {v : Yaml}
    (hv : Yaml.get entries key.name = some v) (hbad : key.Invalid name v) :
    (raw.interpret name).1.SameAt {} key ∧ raw.warningsOf name key ≠ [] := by
  obtain ⟨hdesc, hrun, -, hthrottle, hafter, hoverlap, htags⟩ :=
    ofMapping_fields h
  cases key with
  | description =>
      obtain ⟨hnull, hstring⟩ := hbad
      change Yaml.get entries "description" = some v at hv
      rw [hv] at hdesc
      cases v with
      | null => exact absurd rfl hnull
      | string s => exact absurd rfl (hstring s)
      | _ => cases hdesc
  | runOn =>
      obtain ⟨hnull, hitems⟩ := hbad
      change Yaml.get entries "run_on" = some v at hv
      rw [hv] at hrun
      cases v with
      | null => exact absurd rfl hnull
      | sequence items =>
          have hnone : (parseEntries parseRunOnEntry items).1 = [] :=
            List.filterMap_eq_nil_iff.2 (hitems items rfl)
          have hmoments : raw.runOnMoments name
              = (defaultRunOn, (parseEntries parseRunOnEntry items).2
                ++ [forkWarning name
                  "run_on has no valid triggers; using the defaults"]) := by
            unfold RawFork.runOnMoments
            rw [← Option.some.inj hrun]
            simp [hnone]
          refine ⟨?_, ?_⟩
          · show (raw.runOnMoments name).1 = _
            rw [hmoments]
          · show (raw.runOnMoments name).2 ++ _ ≠ []
            rw [hmoments]
            simp
      | _ => cases hrun
  | throttle =>
      obtain ⟨hnull, hduration⟩ := hbad
      change Yaml.get entries "throttle" = some v at hv
      rw [hv, optValue_of_ne hnull] at hthrottle
      have hsecs : raw.throttleSecs name
          = (none, [forkWarning name "invalid throttle value, ignoring"]) := by
        unfold RawFork.throttleSecs
        rw [hthrottle]
        rcases hduration with hduration | hduration <;>
          simp [hduration, Option.filter]
      exact ⟨congrArg Prod.fst hsecs, by
        show (raw.throttleSecs name).2 ≠ []
        rw [hsecs]
        simp⟩
  | after =>
      obtain ⟨hnull, hsequence, hentry⟩ := hbad
      change Yaml.get entries "after" = some v at hv
      rw [hv, optValue_of_ne hnull] at hafter
      have hnames : raw.afterNames name
          = ([], (parseAfterEntry name v).2) := by
        unfold RawFork.afterNames parseAfter
        rw [hafter]
        cases v with
        | sequence items => exact absurd rfl (hsequence items)
        | _ => simp [parseEntries, hentry]
      refine ⟨congrArg Prod.fst hnames, ?_⟩
      show (raw.afterNames name).2 ≠ []
      rw [hnames]
      have hitem : ForkKey.after.InvalidItem name v := hentry
      exact itemWarnings_ne_nil hitem
  | overlap =>
      obtain ⟨hnull, hbool⟩ := hbad
      change Yaml.get entries "overlap" = some v at hv
      rw [hv, optValue_of_ne hnull] at hoverlap
      have hfalse : raw.overlaps name = (false,
          [forkWarning name "overlap must be true or false; using false"]) := by
        unfold RawFork.overlaps
        rw [hoverlap]
        cases v with
        | bool b => exact absurd rfl (hbool b)
        | _ => rfl
      refine ⟨congrArg Prod.fst hfalse, ?_⟩
      show (raw.overlaps name).2 ≠ []
      rw [hfalse]
      simp
  | tags =>
      obtain ⟨hnull, hstring, hsequence⟩ := hbad
      change Yaml.get entries "tags" = some v at hv
      rw [hv, optValue_of_ne hnull] at htags
      have hnil : raw.tagList name = ([], [forkWarning name
          "tags must be a string or a list of strings, ignoring"]) := by
        unfold RawFork.tagList parseTagsYaml
        rw [htags]
        cases v with
        | null => exact absurd rfl hnull
        | string s => exact absurd rfl (hstring s)
        | sequence items => exact absurd rfl (hsequence items)
        | _ => rfl
      refine ⟨congrArg Prod.fst hnil, ?_⟩
      show (raw.tagList name).2 ≠ []
      rw [hnil]
      simp

/-- The warnings of a list's items are the key's. -/
private theorem itemWarnings_subset {key : ForkKey} {items : List Yaml}
    (hv : Yaml.get entries key.name = some (.sequence items)) {e : Yaml}
    (he : e ∈ items) :
    key.itemWarnings name e ⊆ raw.warningsOf name key := by
  obtain ⟨-, hrun, -, -, hafter, -, htags⟩ := ofMapping_fields h
  intro w hw
  cases key with
  | runOn =>
      change Yaml.get entries "run_on" = _ at hv
      rw [hv] at hrun
      have hmem : w ∈ (parseEntries parseRunOnEntry items).2 :=
        List.mem_flatMap.2 ⟨e, he, hw⟩
      refine List.mem_append_left _ ?_
      unfold RawFork.runOnMoments
      rw [← Option.some.inj hrun]
      dsimp only
      split
      · exact List.mem_append_left _ hmem
      · exact hmem
  | after =>
      change Yaml.get entries "after" = _ at hv
      rw [hv, optValue_of_ne (by simp)] at hafter
      show w ∈ (raw.afterNames name).2
      unfold RawFork.afterNames parseAfter
      rw [hafter]
      exact pushDep_warnings name _ _ (List.mem_flatMap.2 ⟨e, he, hw⟩)
  | tags =>
      change Yaml.get entries "tags" = _ at hv
      rw [hv, optValue_of_ne (by simp)] at htags
      show w ∈ (raw.tagList name).2
      unfold RawFork.tagList parseTagsYaml
      rw [htags]
      exact List.mem_flatMap.2 ⟨e, he, hw⟩
  | _ => cases hw

end

-- ============================================================ the file

private theorem typedFields_iff (entries : List (Yaml × Yaml)) :
    TypedFields entries ↔ (RawFork.ofMapping entries).isSome := by
  unfold TypedFields RawFork.ofMapping
  cases optString (Yaml.get entries "description") with
  | none => simp
  | some description =>
      cases optSequence (Yaml.get entries "run_on") <;> simp

/-- The marker stands in every part of a marked mapping. -/
private theorem isMarked_only (raw : RawFork) (key : ForkKey) :
    (raw.only key).isMarked = raw.isMarked := by
  cases key <;> rfl

/-- What is deserialised is kept. -/
private theorem kept_interpret {entries : List (Yaml × Yaml)} {raw : RawFork}
    (name : String) (h : RawFork.ofMapping entries = some raw)
    (hmarked : raw.isMarked = true) :
    Kept name entries (raw.interpret name).1 (raw.interpret name).2 := by
  constructor
  · intro key
    obtain ⟨hsame, hwarnings⟩ := interpret_only raw name key
    refine ⟨((raw.only key).interpret name).1,
      ((raw.only key).interpret name).2, ?_, hsame, ?_, ?_⟩
    · unfold readFork
      rw [ofMapping_only h]
      simp [isMarked_only, hmarked, Option.filter]
    · rw [hwarnings]
      exact warningsOf_subset raw name key
    · intro v hv hbad
      rw [hwarnings]
      exact (fallback_of_invalid name h hv hbad).2
  · intro key v hv hbad
    exact (fallback_of_invalid name h hv hbad).1
  · intro key items hv e he hitem
    refine ⟨itemWarnings_ne_nil hitem, ?_⟩
    exact List.Subset.trans (itemWarnings_subset name h hv he)
      (warningsOf_subset raw name key)

/-- A marked fork is kept, whatever its other keys hold, exactly when
the two typed fields hold values of their types. -/
theorem marked_fork_kept_iff (serde : SerdeYaml) (hserde : serde.Typed)
    (name content : String) {front body : List Char}
    (hsplit : splitFrontmatter content.toList = (some front, body))
    {entries : List (Yaml × Yaml)}
    (hvalue : serde.value (String.ofList front) = some (.mapping entries))
    (hkeys : Yaml.StringKeys entries)
    (hmark : Yaml.get entries "fork" = some (.bool true)) :
    (∃ d warnings, parseForkFile serde name content
        = .fork ⟨d, String.ofList body, warnings⟩
      ∧ Kept name entries d warnings) ↔ TypedFields entries := by
  have hraw := hserde _ _ hvalue hkeys
  rw [typedFields_iff]
  cases h : RawFork.ofMapping entries with
  | none =>
      have hinvalid : parseForkFile serde name content = .invalid := by
        unfold parseForkFile
        rw [hsplit]
        dsimp only
        rw [hraw, h]
      simp [hinvalid]
  | some raw =>
      have hmarked : raw.isMarked = true := by
        obtain ⟨-, -, hfork, -⟩ := ofMapping_fields h
        rw [hmark] at hfork
        unfold RawFork.isMarked
        rw [hfork]
        rfl
      have hfork : parseForkFile serde name content
          = .fork ⟨(raw.interpret name).1, String.ofList body,
            (raw.interpret name).2⟩ := by
        unfold parseForkFile
        rw [hsplit]
        dsimp only
        rw [hraw, h]
        dsimp only
        rw [if_pos hmarked]
      simp only [Option.isSome_some, iff_true]
      exact ⟨_, _, hfork, kept_interpret name h hmarked⟩

/-- A crate that reads one text. -/
def SerdeYaml.reading (text : String) (entries : List (Yaml × Yaml)) :
    SerdeYaml where
  value t := if t = text then some (.mapping entries) else none
  rawFork t := if t = text then RawFork.ofMapping entries else none

theorem SerdeYaml.typed_reading (text : String)
    (entries : List (Yaml × Yaml)) : (reading text entries).Typed := by
  intro t es h _
  by_cases ht : t = text
  · simp only [reading, ht, if_true, Option.some.injEq, Yaml.mapping.injEq]
      at h
    simp [reading, ht, h]
  · simp [reading, ht] at h

/-- A throttle that is no duration leaves the fork. -/
theorem marked_fork_kept_iff_throttle :
    ∃ d warnings,
      parseForkFile
          (.reading "fork: true\nthrottle: soon"
            [(.string "fork", .bool true),
              (.string "throttle", .string "soon")])
          "digest" "---\nfork: true\nthrottle: soon\n---\nRead."
        = .fork ⟨d, String.ofList "Read.".toList, warnings⟩
      ∧ Kept "digest" [(.string "fork", .bool true),
          (.string "throttle", .string "soon")] d warnings := by
  have hsplit : splitFrontmatter
      "---\nfork: true\nthrottle: soon\n---\nRead.".toList
      = (some "fork: true\nthrottle: soon".toList, "Read.".toList) := by
    decide +kernel
  have hkeys : Yaml.StringKeys [(.string "fork", .bool true),
      (.string "throttle", .string "soon")] := by
    simp [Yaml.StringKeys, Yaml.keyOf]
  exact (marked_fork_kept_iff _ (SerdeYaml.typed_reading _ _) "digest" _
    hsplit (by simp [SerdeYaml.reading]) hkeys rfl).2 ⟨rfl, rfl⟩

/-- A `run_on` that is a plain text loses the fork, marked as it is. -/
theorem marked_fork_dropped :
    ∃ serde : SerdeYaml, serde.Typed
      ∧ splitFrontmatter "---\nfork: true\nrun_on: idle\n---\nRead.".toList
        = (some "fork: true\nrun_on: idle".toList, "Read.".toList)
      ∧ serde.value "fork: true\nrun_on: idle"
        = some (.mapping [(.string "fork", .bool true),
          (.string "run_on", .string "idle")])
      ∧ Yaml.StringKeys [(.string "fork", .bool true),
        (.string "run_on", .string "idle")]
      ∧ parseForkFile serde "digest"
        "---\nfork: true\nrun_on: idle\n---\nRead." = .invalid := by
  have hsplit : splitFrontmatter
      "---\nfork: true\nrun_on: idle\n---\nRead.".toList
      = (some "fork: true\nrun_on: idle".toList, "Read.".toList) := by
    decide +kernel
  refine ⟨.reading "fork: true\nrun_on: idle" [(.string "fork", .bool true),
    (.string "run_on", .string "idle")], SerdeYaml.typed_reading _ _, hsplit,
    by simp [SerdeYaml.reading], ?_, ?_⟩
  · simp [Yaml.StringKeys, Yaml.keyOf]
  · unfold parseForkFile
    rw [hsplit]
    simp [SerdeYaml.reading, RawFork.ofMapping, Yaml.get, Yaml.keyOf,
      optString, optSequence]

end Autofork
