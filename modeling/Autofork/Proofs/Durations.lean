/-
Durations: what a text says, and what the parser makes of it.

`Written` is the grammar: a decimal number with an optional `+`, then
one of the four suffixes, white space allowed before it, or none. The
parser accepts the texts whose number is a `u64`
(`parseDurationStr_eq_some_iff`), checks the number, and not the product: it is
exact on a text unless the number fits and the product does not
(`duration_exact_iff`).
-/
import Autofork.Duration

namespace Autofork

open Lib

-- ============================================================== grammar

/-- The trimmed text is a decimal number with at most one suffix: the
number, and the seconds in its unit. -/
def Written (text : String) (number unit : Nat) : Prop :=
  ∃ num gap suffix, trim text.toList = num ++ gap ++ suffix
    ∧ Numeral num number ∧ (∀ c ∈ gap, isWhitespace c = true)
    ∧ (gap = [] ∧ suffix = [] ∧ unit = 1
      ∨ ∃ c, suffix = [c] ∧ unitSecs c = some unit)

/-- The number and the unit a text says, whatever their size. -/
def readDuration (text : String) : Option (Nat × Nat) :=
  match splitUnit (trim text.toList) with
  | none => none
  | some (num, mult) => (parseDecimal (trim num)).map fun n => (n, mult)

private theorem isWhitespace_of_digit {c : Char} (h : c.isDigit = true) :
    isWhitespace c = false := by
  have hcode := Char.isDigit_iff_toNat.1 h
  have h0 : '0'.toNat = 48 := rfl
  have h9 : '9'.toNat = 57 := rfl
  unfold isWhitespace
  simp only [Bool.or_eq_false_iff, Bool.and_eq_false_iff,
    decide_eq_false_iff_not, beq_eq_false_iff_ne]
  omega

private theorem unitSecs_of_digit {c : Char} (h : c.isDigit = true) :
    unitSecs c = none := by
  have hcode := Char.isDigit_iff_toNat.1 h
  have hne : ∀ d : Char, 57 < d.toNat → c ≠ d := by
    rintro d hd rfl
    have h9 : '9'.toNat = 57 := rfl
    omega
  unfold unitSecs
  rw [if_neg (hne 's' (by decide)), if_neg (hne 'm' (by decide)),
    if_neg (hne 'h' (by decide)), if_neg (hne 'd' (by decide))]

/-- A numeral has no white space around it. -/
private theorem trim_numeral {num : List Char} {number : Nat}
    (h : Numeral num number) : trim num = num := by
  obtain ⟨-, hhead, hlast⟩ := h.ends
  refine trim_eq_self_iff.2 ⟨fun c hc => ?_, fun c hc =>
    isWhitespace_of_digit (hlast c hc)⟩
  rcases hhead c hc with rfl | hdigit
  · decide
  · exact isWhitespace_of_digit hdigit

/-- What is read is what is written. -/
theorem readDuration_eq_some_iff {text : String} {number unit : Nat} :
    readDuration text = some (number, unit) ↔ Written text number unit := by
  unfold readDuration Written splitUnit
  constructor
  · intro h
    cases hlast : (trim text.toList).getLast? with
    | none => simp [hlast] at h
    | some c =>
        obtain ⟨init, htext⟩ := List.getLast?_eq_some_iff.1 hlast
        cases hunit : unitSecs c with
        | some mult =>
            simp only [hlast, hunit, Option.map_eq_some_iff, Prod.mk.injEq]
              at h
            obtain ⟨n, hn, rfl, rfl⟩ := h
            rw [htext, List.dropLast_concat] at hn
            have hnumeral := parseDecimal_eq_some_iff.1 hn
            have hinit : init ≠ [] := by
              rintro rfl
              exact hnumeral.ends.1 rfl
            -- the text before the suffix begins as the whole does
            have hhead : ∀ d ∈ init.head?, isWhitespace d = false := by
              intro d hd
              refine (trim_eq_self_iff.1 (trim_trim text.toList)).1 d ?_
              rw [htext, List.head?_append_of_ne_nil _ hinit]
              exact hd
            refine ⟨trim init, init.rtakeWhile isWhitespace, [c], ?_, hnumeral,
              fun d hd => List.mem_rtakeWhile_imp hd, Or.inr ⟨c, rfl, hunit⟩⟩
            rw [trim_append_rest hhead, htext]
        | none =>
            simp only [hlast, hunit] at h
            by_cases hdigit : c.isDigit = true
            · simp only [if_pos hdigit, Option.map_eq_some_iff,
                Prod.mk.injEq, trim_trim] at h
              obtain ⟨n, hn, rfl, rfl⟩ := h
              exact ⟨_, [], [], by simp, parseDecimal_eq_some_iff.1 hn,
                by simp, Or.inl ⟨rfl, rfl, rfl⟩⟩
            · rw [if_neg hdigit] at h
              cases h
  · rintro ⟨num, gap, suffix, htext, hnumeral, hgap, hsuffix⟩
    have hnum := parseDecimal_eq_some_iff.2 hnumeral
    rcases hsuffix with ⟨rfl, rfl, rfl⟩ | ⟨c, rfl, hunit⟩
    · rw [List.append_nil, List.append_nil] at htext
      have hlast := List.getLast?_eq_some_getLast hnumeral.ends.1
      have hdigit := hnumeral.ends.2.2 _ hlast
      simp only [htext, hlast, unitSecs_of_digit hdigit, if_pos hdigit,
        trim_numeral hnumeral, hnum, Option.map_some]
    · have hlast : (num ++ gap ++ [c]).getLast? = some c := by simp
      simp only [htext, hlast, hunit, List.dropLast_concat,
        trim_append_blank num hgap, trim_numeral hnumeral, hnum,
        Option.map_some]

/-- A text says at most one thing. -/
theorem Written.unique {text : String} {n u n' u' : Nat}
    (h : Written text n u) (h' : Written text n' u') : n = n' ∧ u = u' := by
  rw [← readDuration_eq_some_iff] at h h'
  rw [h] at h'
  simpa using h'

/-- The unit is one of four. -/
theorem Written.unit_pos {text : String} {n u : Nat}
    (h : Written text n u) : 0 < u := by
  obtain ⟨-, -, -, -, -, -, ⟨-, -, rfl⟩ | ⟨c, -, hunit⟩⟩ := h
  · omega
  · unfold unitSecs at hunit
    grind

-- ============================================================== parsing

/-- The parser accepts what is written with a `u64` number, and wraps the
product. -/
theorem parseDurationStr_eq_some_iff {text : String} {n : Nat} :
    parseDurationStr text = some n
      ↔ ∃ number unit, Written text number unit ∧ number ≤ u64Max
        ∧ n = wrapU64 (number * unit) := by
  simp only [← readDuration_eq_some_iff]
  unfold parseDurationStr readDuration
  cases splitUnit (trim text.toList) with
  | none => simp
  | some p =>
      obtain ⟨num, mult⟩ := p
      simp only [Option.map_eq_some_iff, Prod.mk.injEq,
        parseU64_eq_some_iff, parseDecimal_eq_some_iff]
      grind

/-- The exact duration a text says: its product, within a `u64`. -/
def Says (text : String) (n : Nat) : Prop :=
  ∃ number unit, Written text number unit ∧ n = number * unit ∧ n ≤ u64Max

/-- A text is parsed exactly or not at all, unless it writes a number
that fits whose product does not. -/
theorem duration_exact_iff (text : String) :
    (∀ n, parseDurationStr text = some n ↔ Says text n)
      ↔ ∀ number unit, Written text number unit → number ≤ u64Max →
        number * unit ≤ u64Max := by
  constructor
  · intro hexact number unit hw hfits
    have hparsed := parseDurationStr_eq_some_iff.2 ⟨number, unit, hw, hfits, rfl⟩
    obtain ⟨number', unit', hw', heq, hle⟩ := (hexact _).1 hparsed
    obtain ⟨rfl, rfl⟩ := hw.unique hw'
    rwa [heq] at hle
  · intro hfits n
    rw [parseDurationStr_eq_some_iff]
    constructor
    · rintro ⟨number, unit, hw, hle, rfl⟩
      have hproduct := hfits number unit hw hle
      exact ⟨number, unit, hw, wrapU64_of_le hproduct, wrapU64_le _⟩
    · rintro ⟨number, unit, hw, rfl, hle⟩
      refine ⟨number, unit, hw, ?_, (wrapU64_of_le hle).symm⟩
      exact Nat.le_trans (Nat.le_mul_of_pos_right _ hw.unit_pos) hle

/-- Fifteen digits of days make a short duration. -/
theorem duration_wraps :
    parseDurationStr "213503982334602d" = some 61184
      ∧ ¬∀ n, parseDurationStr "213503982334602d" = some n
        ↔ Says "213503982334602d" n := by
  have hparsed : parseDurationStr "213503982334602d" = some 61184 := by
    decide +kernel
  have hread : readDuration "213503982334602d"
      = some (213503982334602, 86400) := by decide +kernel
  refine ⟨hparsed, fun hexact => ?_⟩
  obtain ⟨number, unit, hw, hproduct, -⟩ := (hexact 61184).1 hparsed
  obtain ⟨rfl, rfl⟩ := hw.unique (readDuration_eq_some_iff.1 hread)
  omega

end Autofork
