/-
Decimal numbers as the Rust standard library reads them into a `u64`: an
optional `+`, then digits and nothing else, at least one, within range.

`Numeral` is the grammar; `parseU64` accepts the numerals that fit, with
their values (`parseU64_eq_some_iff`).
-/
import Autofork.Lib.Machine

namespace Autofork.Lib

/-- The digits of a numeral: a leading `+` dropped. -/
def unsigned (s : List Char) : List Char :=
  if s.head? = some '+' then s.tail else s

/-- A text of digits, at least one, with its value. -/
def parseDecimal (s : List Char) : Option Nat :=
  if unsigned s ≠ [] ∧ (unsigned s).all Char.isDigit then
    some (Nat.ofDigitChars 10 (unsigned s) 0)
  else none

/-- `str::parse::<u64>`. -/
def parseU64 (s : List Char) : Option Nat :=
  (parseDecimal s).filter (· ≤ u64Max)

/-- The text is a decimal number, of this value. -/
def Numeral (s : List Char) (n : Nat) : Prop :=
  ∃ digits, (s = digits ∨ s = '+' :: digits) ∧ digits ≠ []
    ∧ (∀ c ∈ digits, c.isDigit = true) ∧ Nat.ofDigitChars 10 digits 0 = n

theorem unsigned_of_digits {digits : List Char}
    (h : ∀ c ∈ digits, c.isDigit = true) : unsigned digits = digits := by
  refine if_neg fun hhead => ?_
  have hplus := h '+' (List.mem_of_mem_head? hhead)
  revert hplus
  decide

theorem parseDecimal_eq_some_iff {s : List Char} {n : Nat} :
    parseDecimal s = some n ↔ Numeral s n := by
  unfold parseDecimal
  constructor
  · intro h
    split at h
    next hdigits =>
      refine ⟨unsigned s, ?_, hdigits.1, List.all_eq_true.1 hdigits.2,
        Option.some.inj h⟩
      unfold unsigned
      split
      next hplus =>
        obtain ⟨rest, rfl⟩ := List.head?_eq_some_iff.1 hplus
        exact Or.inr rfl
      next => exact Or.inl rfl
    next => cases h
  · rintro ⟨digits, hs, hne, hdigits, hn⟩
    have hunsigned : unsigned s = digits := by
      rcases hs with rfl | rfl
      · exact unsigned_of_digits hdigits
      · rfl
    rw [hunsigned, if_pos ⟨hne, List.all_eq_true.2 hdigits⟩, hn]

theorem parseU64_eq_some_iff {s : List Char} {n : Nat} :
    parseU64 s = some n ↔ Numeral s n ∧ n ≤ u64Max := by
  unfold parseU64
  rw [Option.filter_eq_some_iff, parseDecimal_eq_some_iff, decide_eq_true_eq]

/-- A numeral ends in a digit, and begins with one or with `+`. -/
theorem Numeral.ends {s : List Char} {n : Nat} (h : Numeral s n) :
    s ≠ [] ∧ (∀ c ∈ s.head?, c = '+' ∨ c.isDigit = true)
      ∧ ∀ c ∈ s.getLast?, c.isDigit = true := by
  obtain ⟨digits, hs, hne, hdigits, -⟩ := h
  rcases hs with rfl | rfl
  · exact ⟨hne, fun c hc => Or.inr (hdigits c (List.mem_of_mem_head? hc)),
      fun c hc => hdigits c (List.mem_of_mem_getLast? hc)⟩
  · refine ⟨by simp, by simp, fun c hc => hdigits c ?_⟩
    rw [List.getLast?_cons_of_ne_nil hne] at hc
    exact List.mem_of_mem_getLast? hc

end Autofork.Lib
