/-
Fork definitions as the frontmatter parser delivers them: the moments a
fork may fire at, with the labels that name them in payloads and latch
keys, and the outcomes of parsing a file in a forks tree.

`u64` and `u8` fields are naturals. The parser itself reads YAML; here
are its result types and defaults, which is what selection consumes.
-/
import Mathlib.Data.List.Basic
import Autofork.Lib.Text

namespace Autofork

open Lib

/-- A fork moment a fork fires at (`run_on`). Only `idle` and the
`context*` forms are supported; the rest are recognized and never
fire. -/
inductive ForkRunOn
  /-- An idle pause, at the default deadline when unset. -/
  | idle (afterSecs : Option Nat)
  | contextTokens (n : Nat)
  | contextUsedPct (p : Nat)
  | contextLeft (n : Nat)
  | compact
  | sessionStart
  | sessionEnd
  | manualStop
  | boot
  deriving DecidableEq, Repr

/-- The stable label: wake payloads carry it, and context triggers
latch on it. -/
def ForkRunOn.label : ForkRunOn → String
  | .idle none => "idle"
  | .idle (some s) => "idle:" ++ s.repr
  | .contextTokens n => "context_tokens:" ++ n.repr
  | .contextUsedPct p => "context_used:" ++ p.repr ++ "%"
  | .contextLeft n => "context_left:" ++ n.repr
  | .compact => "compact"
  | .sessionStart => "session_start"
  | .sessionEnd => "session_end"
  | .manualStop => "manual_stop"
  | .boot => "boot"

/-- The default moments when `run_on` is absent. -/
def defaultRunOn : List ForkRunOn := [.idle none]

/-- A parsed fork definition (frontmatter only). -/
structure ForkDef where
  description : Option String := none
  runOn : List ForkRunOn := defaultRunOn
  /-- Minimum seconds between two runs within a session. -/
  throttleSecs : Option Nat := none
  /-- The forks to run after, when they come due together. -/
  after : List String := []
  overlap : Bool := false
  tags : List String := []
  deriving DecidableEq, Repr

/-- A definition with the file's body and the parser's warnings. -/
structure ParsedFork where
  «def» : ForkDef
  body : String
  warnings : List String
  deriving DecidableEq, Repr

/-- The outcome of parsing a `.md` file in a forks tree. -/
inductive ForkParse
  /-- The frontmatter carried `fork: true`. -/
  | fork (parsed : ParsedFork)
  | notFork (forkLike : Bool)
  /-- A frontmatter block that is not valid YAML. -/
  | invalid
  deriving DecidableEq, Repr

-- ================================================================ tags

/-- `push_split`: the comma-separated pieces of a text, each once. -/
def pushSplit (out : List String) (s : String) : List String :=
  (splitComma s).foldl
    (fun out t => if out.contains t then out else out ++ [t]) out

/-- `parse_tags`, on the texts the YAML value holds: a scalar is one
text, a sequence one for each string in it. -/
def parseTags (texts : List String) : List String :=
  texts.foldl pushSplit []

/-- Parsed tags survive the comma-joined column of the run they are
recorded with. -/
theorem piece_of_mem_parseTags {texts : List String} {tag : String}
    (h : tag ∈ parseTags texts) : Piece tag := by
  have hpush : ∀ (pieces out : List String), (∀ p ∈ pieces, Piece p) →
      (∀ p ∈ out, Piece p) → ∀ p ∈ pieces.foldl
        (fun out t => if out.contains t then out else out ++ [t]) out,
        Piece p := by
    intro pieces
    induction pieces with
    | nil => exact fun out _ hout => hout
    | cons t pieces ih =>
        intro out hpieces hout
        rw [List.forall_mem_cons] at hpieces
        refine ih _ hpieces.2 ?_
        dsimp only
        split
        · exact hout
        · intro p hp
          rcases List.mem_append.1 hp with hp | hp
          · exact hout p hp
          · exact List.mem_singleton.1 hp ▸ hpieces.1
  have hall : ∀ (texts out : List String), (∀ p ∈ out, Piece p) →
      ∀ p ∈ texts.foldl pushSplit out, Piece p := by
    intro texts
    induction texts with
    | nil => exact fun out hout => hout
    | cons s texts ih =>
        exact fun out hout => ih _
          (hpush _ out (fun _ => piece_of_mem_splitComma) hout)
  exact hall texts [] (by simp) tag h

-- ============================================================== labels

/-- A text starts as its first non-empty part does. -/
private theorem head_append {s t : String} {c : Char}
    (h : s.toList.head? = some c) : (s ++ t).toList.head? = some c := by
  rw [String.toList_append, List.head?_append, h, Option.some_or]

/-- The character a label starts with tells idle moments apart from
every other. -/
theorem ForkRunOn.label_head_idle (a : Option Nat) :
    (ForkRunOn.idle a).label.toList.head? = some 'i' := by
  cases a with
  | none => decide
  | some s => exact head_append (by decide)

theorem ForkRunOn.label_head_ne {t : ForkRunOn} (h : ∀ a, t ≠ .idle a) :
    t.label.toList.head? ≠ some 'i' := by
  have hctx : ∀ s u : String, s.toList.head? = some 'c' →
      (s ++ u).toList.head? ≠ some 'i' := by
    intro s u hs
    rw [head_append hs]
    decide
  cases t with
  | idle a => exact absurd rfl (h a)
  | contextTokens n => exact hctx _ _ (by decide)
  | contextUsedPct p => exact hctx _ _ (head_append (by decide))
  | contextLeft n => exact hctx _ _ (by decide)
  | _ => decide

/-- The label of a set deadline is longer than the bare one. -/
private theorem label_idle_some_ne (s : Nat) :
    (ForkRunOn.idle (some s)).label ≠ (ForkRunOn.idle none).label := by
  intro h
  have hlen : ("idle:" ++ s.repr).length = "idle".length :=
    congrArg String.length h
  rw [String.length_append, show "idle:".length = 5 from by decide,
    show "idle".length = 4 from by decide] at hlen
  omega

/-- An idle label names its trigger. -/
theorem ForkRunOn.eq_idle_of_label {t : ForkRunOn} {a : Option Nat}
    (h : t.label = (ForkRunOn.idle a).label) : t = .idle a := by
  have hhead := label_head_idle a
  rw [← h] at hhead
  cases t with
  | idle b =>
      match a, b, h with
      | none, none, _ => rfl
      | none, some m, h => exact absurd h (label_idle_some_ne m)
      | some n, none, h => exact absurd h.symm (label_idle_some_ne n)
      | some n, some m, h =>
          have hl : ("idle:" ++ m.repr).toList = ("idle:" ++ n.repr).toList :=
            congrArg String.toList h
          rw [String.toList_append, String.toList_append,
            List.append_cancel_left_eq, Nat.toList_repr,
            Nat.toList_repr] at hl
          have hmn := congrArg (Nat.ofDigitChars 10 · 0) hl
          simp only [Nat.ofDigitChars_ten_toDigits] at hmn
          rw [hmn]
  | _ => exact absurd hhead (label_head_ne (by simp))

end Autofork
