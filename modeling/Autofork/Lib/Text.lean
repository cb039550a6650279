/-
Text operations with the meaning the Rust standard library documents
for them, on lists of characters: trimming Unicode white space,
splitting at a separator, joining, and substring search by
first occurrence.
-/
import Mathlib.Data.List.DropRight
import Mathlib.Data.List.Infix

namespace Autofork.Lib

/-- `char::is_whitespace`: the Unicode `White_Space` property. -/
def isWhitespace (c : Char) : Bool :=
  let n := c.toNat
  (9 ≤ n && n ≤ 13) || n == 0x20 || n == 0x85 || n == 0xA0 || n == 0x1680
    || (0x2000 ≤ n && n ≤ 0x200A) || n == 0x2028 || n == 0x2029
    || n == 0x202F || n == 0x205F || n == 0x3000

/-- `str::trim_start`. -/
def trimStart (s : List Char) : List Char := s.dropWhile isWhitespace

/-- `str::trim`. -/
def trim (s : List Char) : List Char := (trimStart s).rdropWhile isWhitespace

/-- `[_].join(sep)`. -/
def join (sep : String) (parts : List String) : String :=
  String.ofList (sep.toList.intercalate (parts.map String.toList))

/-- `split(',').map(trim).filter(non-empty)`, as every comma-joined
column and variable is read back. -/
def splitComma (s : String) : List String :=
  ((s.toList.splitOn ',').map trim).filterMap fun t =>
    if t = [] then none else some (String.ofList t)

/-- `str::contains`. -/
def contains (s pat : String) : Bool := decide (pat.toList <:+: s.toList)

/-- What follows the first occurrence of `pat`. -/
def afterFirst (pat : List Char) : List Char → Option (List Char)
  | [] => if pat = [] then some [] else none
  | c :: s =>
      if pat <+: c :: s then some ((c :: s).drop pat.length)
      else afterFirst pat s

/-- What precedes the first occurrence of `pat`. -/
def beforeFirst (pat : List Char) : List Char → Option (List Char)
  | [] => if pat = [] then some [] else none
  | c :: s =>
      if pat <+: c :: s then some []
      else (beforeFirst pat s).map (c :: ·)

/-- Containment passes up: what contains a text that contains `pat`
contains `pat`. -/
theorem contains_trans {s t pat : String} (hst : contains s t = true)
    (ht : contains t pat = true) : contains s pat = true := by
  simp only [contains, decide_eq_true_eq] at *
  exact ht.trans hst

theorem contains_append_right (s t : String) : contains (s ++ t) t = true := by
  simp only [contains, decide_eq_true_eq, String.toList_append]
  exact (List.suffix_append _ _).isInfix

theorem contains_append_left (s t : String) : contains (s ++ t) s = true := by
  simp only [contains, decide_eq_true_eq, String.toList_append]
  exact (List.prefix_append _ _).isInfix

/-- A join contains each of its parts. -/
theorem contains_join {sep s : String} {parts : List String}
    (h : s ∈ parts) : contains (join sep parts) s = true := by
  simp only [contains, join, decide_eq_true_eq, String.toList_ofList]
  induction parts with
  | nil => simp at h
  | cons p parts ih =>
      cases parts with
      | nil =>
          rw [List.mem_singleton.1 h]
          simp
      | cons q parts =>
          rw [List.map_cons, List.map_cons, List.intercalate_cons_cons]
          rcases List.mem_cons.1 h with rfl | h
          · rw [List.append_assoc]
            exact (List.prefix_append _ _).isInfix
          · exact (ih h).trans (List.suffix_append _ _).isInfix

-- ====================================================== first occurrences

section first

variable {pat s t : List Char}

/-- In the text `s ++ t` an occurrence of `pat` begins within `s`. -/
def Begins (pat s t : List Char) : Prop :=
  ∃ u v, s = u ++ v ∧ v ≠ [] ∧ pat <+: v ++ t

private theorem begins_cons {c : Char} (h : Begins pat s t) :
    Begins pat (c :: s) t := by
  obtain ⟨u, v, rfl, hv⟩ := h
  exact ⟨c :: u, v, rfl, hv⟩

/-- A search passes over what no occurrence begins in. -/
theorem afterFirst_skip (h : ¬Begins pat s t) :
    afterFirst pat (s ++ t) = afterFirst pat t := by
  induction s with
  | nil => rfl
  | cons c s ih =>
      have hno : ¬pat <+: c :: (s ++ t) := fun hpat =>
        h ⟨[], c :: s, rfl, by simp, hpat⟩
      rw [List.cons_append, afterFirst, if_neg hno]
      exact ih fun hs => h (begins_cons hs)

theorem beforeFirst_skip (h : ¬Begins pat s t) :
    beforeFirst pat (s ++ t) = (beforeFirst pat t).map (s ++ ·) := by
  induction s with
  | nil => simp
  | cons c s ih =>
      have hno : ¬pat <+: c :: (s ++ t) := fun hpat =>
        h ⟨[], c :: s, rfl, by simp, hpat⟩
      rw [List.cons_append, beforeFirst, if_neg hno,
        ih fun hs => h (begins_cons hs), Option.map_map]
      rfl

theorem afterFirst_here (pat t : List Char) :
    afterFirst pat (pat ++ t) = some t := by
  cases hpt : pat ++ t with
  | nil =>
      obtain ⟨rfl, rfl⟩ := List.append_eq_nil_iff.1 hpt
      rfl
  | cons c l =>
      rw [afterFirst, ← hpt, if_pos (List.prefix_append pat t), List.drop_left]

theorem beforeFirst_here (pat t : List Char) :
    beforeFirst pat (pat ++ t) = some [] := by
  cases hpt : pat ++ t with
  | nil =>
      obtain ⟨rfl, rfl⟩ := List.append_eq_nil_iff.1 hpt
      rfl
  | cons c l => rw [beforeFirst, ← hpt, if_pos (List.prefix_append pat t)]

/-- A text that contains `pat` splits at the first occurrence, which
stays the first whatever is added at the end. -/
theorem exists_first (hne : pat ≠ []) (h : pat <:+: s) :
    ∃ u r, s = u ++ (pat ++ r) ∧ ∀ t, ¬Begins pat u (pat ++ (r ++ t)) := by
  induction s with
  | nil => exact absurd (List.infix_nil.1 h) hne
  | cons c s ih =>
      by_cases hpat : pat <+: c :: s
      · obtain ⟨r, hr⟩ := hpat
        refine ⟨[], r, hr.symm, fun t => ?_⟩
        rintro ⟨u, v, huv, hv, -⟩
        exact hv (List.append_eq_nil_iff.1 huv.symm).2
      · obtain ⟨u, r, rfl, hfirst⟩ :=
          ih ((List.infix_cons_iff.1 h).resolve_left hpat)
        refine ⟨c :: u, r, rfl, fun t => ?_⟩
        rintro ⟨u', v, huv, hv, hbegin⟩
        cases u' with
        | nil =>
            -- it would be an occurrence in the text without the addition
            rw [List.nil_append] at huv
            have hwhole : pat <+: (c :: (u ++ (pat ++ r))) ++ t := by
              simpa [← huv] using hbegin
            refine hpat (List.prefix_of_prefix_length_le hwhole
              (List.prefix_append _ t) ?_)
            simp only [List.length_cons, List.length_append]
            omega
        | cons d u' =>
            obtain ⟨rfl, rfl⟩ := List.cons_eq_cons.1 huv
            exact hfirst t ⟨u', v, rfl, hv, hbegin⟩

/-- A text without an occurrence. -/
theorem afterFirst_absent (hne : pat ≠ []) (h : ¬pat <:+: s) :
    afterFirst pat s = none := by
  have hskip : ¬Begins pat s [] := by
    rintro ⟨u, v, rfl, -, hpat⟩
    rw [List.append_nil] at hpat
    exact h (hpat.isInfix.trans (List.suffix_append u v).isInfix)
  have := afterFirst_skip hskip
  rw [List.append_nil] at this
  rw [this, afterFirst, if_neg hne]

theorem beforeFirst_absent (hne : pat ≠ []) (h : ¬pat <:+: s) :
    beforeFirst pat s = none := by
  have hskip : ¬Begins pat s [] := by
    rintro ⟨u, v, rfl, -, hpat⟩
    rw [List.append_nil] at hpat
    exact h (hpat.isInfix.trans (List.suffix_append u v).isInfix)
  have := beforeFirst_skip hskip
  rw [List.append_nil] at this
  rw [this, beforeFirst, if_neg hne, Option.map_none]

/-- A pattern whose first character does not come again cannot begin in
one text and end in another that starts with that character. -/
theorem infix_of_begins {c : Char} {tail : List Char} (hc : c ∉ tail)
    (ht : ∀ x ∈ t.head?, x = c) (h : Begins (c :: tail) s t) :
    c :: tail <:+: s := by
  obtain ⟨u, v, rfl, hv, w, hw⟩ := h
  rcases List.append_eq_append_iff.1 hw with ⟨a, hva, -⟩ | ⟨a, hpat, hta⟩
  · rw [hva]
    exact (List.infix_append u (c :: tail) a).trans (by simp)
  · cases a with
    | nil =>
        rw [List.append_nil] at hpat
        rw [← hpat]
        exact (List.suffix_append u _).isInfix
    | cons x a =>
        obtain rfl := ht x (by simp [hta])
        cases v with
        | nil => exact absurd rfl hv
        | cons y v =>
            obtain ⟨-, rfl⟩ := List.cons_eq_cons.1 hpat
            exact absurd (by simp) hc

/-- The text before the first occurrence of a character. -/
theorem beforeFirst_char_iff {q : Char} {n : List Char} :
    beforeFirst [q] s = some n ↔ q ∉ n ∧ n ++ [q] <+: s := by
  induction s generalizing n with
  | nil => simp [beforeFirst]
  | cons c s ih =>
      have hhead : [q] <+: c :: s ↔ q = c := List.singleton_prefix_cons_iff
      rw [beforeFirst]
      by_cases hqc : q = c
      · rw [if_pos (hhead.2 hqc)]
        constructor
        · intro h
          cases h
          simp [hqc]
        · rintro ⟨hn, hpre⟩
          cases n with
          | nil => rfl
          | cons x n =>
              rw [List.cons_append, List.cons_prefix_cons] at hpre
              exact absurd (by simp [hqc, hpre.1]) hn
      · rw [if_neg (mt hhead.1 hqc), Option.map_eq_some_iff]
        constructor
        · rintro ⟨m, hm, rfl⟩
          obtain ⟨hqm, hpre⟩ := ih.1 hm
          refine ⟨by simp [hqc, hqm], ?_⟩
          rw [List.cons_append, List.cons_prefix_cons]
          exact ⟨rfl, hpre⟩
        · rintro ⟨hn, hpre⟩
          cases n with
          | nil =>
              exact absurd (hhead.1 hpre) hqc
          | cons x n =>
              rw [List.cons_append, List.cons_prefix_cons] at hpre
              obtain ⟨rfl, hpre⟩ := hpre
              refine ⟨n, ih.2 ⟨fun hq => hn (by simp [hq]), hpre⟩, rfl⟩

/-- An occurrence within a text begins there. -/
theorem begins_within (hne : pat ≠ []) (h : pat <:+: s) (t : List Char) :
    Begins pat s t := by
  obtain ⟨u, v, rfl⟩ := h
  refine ⟨u, pat ++ v, by simp, by simp [hne], ?_⟩
  rw [List.append_assoc]
  exact List.prefix_append _ _

/-- An occurrence begins with its first character. -/
theorem mem_of_begins {c : Char} {tail : List Char}
    (h : Begins (c :: tail) s t) : c ∈ s := by
  obtain ⟨u, v, rfl, hv, hpat⟩ := h
  cases v with
  | nil => exact absurd rfl hv
  | cons x v =>
      rw [List.cons_append, List.cons_prefix_cons] at hpat
      simp [hpat.1]

/-- A text without the first character holds no part of an
occurrence. -/
theorem infix_of_append_left {c : Char} {tail : List Char} (hc : c ∉ s)
    (h : c :: tail <:+: s ++ t) : c :: tail <:+: t := by
  rcases List.infix_append_iff_ne_nil.1 h with h | h | ⟨l₁, l₂, h₁, -, hl, hs, -⟩
  · exact absurd (h.subset (by simp)) hc
  · exact h
  · cases l₁ with
    | nil => exact absurd rfl h₁
    | cons x l₁ =>
        rw [List.cons_append, List.cons_eq_cons] at hl
        exact absurd (hs.subset (by simp [hl.1])) hc

/-- Nor does one without the last character. -/
theorem infix_of_append_right {q : Char} {init : List Char} (hq : q ∉ t)
    (h : init ++ [q] <:+: s ++ t) : init ++ [q] <:+: s := by
  rcases List.infix_append_iff_ne_nil.1 h with h | h | ⟨l₁, l₂, -, h₂, hl, -, ht⟩
  · exact h
  · exact absurd (h.subset (by simp)) hq
  · have hlast : q ∈ l₂ := by
      have hget := congrArg List.getLast? hl
      rw [List.getLast?_append_of_ne_nil _ (by simp),
        List.getLast?_append_of_ne_nil _ h₂] at hget
      exact List.mem_of_getLast? (by simpa using hget.symm)
    exact absurd (ht.subset hlast) hq

end first

-- =================================================== comma-joined columns

/-- A text that is one piece of a comma-joined column: not empty, without
a comma, without white space around it. -/
def Piece (s : String) : Prop :=
  s ≠ "" ∧ ',' ∉ s.toList ∧ trim s.toList = s.toList

instance (s : String) : Decidable (Piece s) :=
  inferInstanceAs (Decidable (_ ∧ _ ∧ _))

theorem trim_eq_nil_iff {s : List Char} :
    trim s = [] ↔ ∀ c ∈ s, isWhitespace c = true := by
  rw [trim, List.rdropWhile_eq_nil_iff]
  constructor
  · intro h
    have hnil : trimStart s = [] := by
      by_contra hne
      have hblank := h _ (List.head_mem hne)
      have hhead := List.head_dropWhile_not isWhitespace hne
      exact absurd hblank (by simpa [trimStart] using hhead)
    exact List.dropWhile_eq_nil_iff.1 hnil
  · exact fun h c hc => h c ((List.dropWhile_suffix _).subset hc)

theorem trim_trim (s : List Char) : trim (trim s) = trim s := by
  have hstart : trimStart (trim s) = trim s := by
    rw [trimStart, List.dropWhile_eq_self_iff]
    intro hl
    obtain ⟨tail, htail⟩ : trim s <+: trimStart s := List.rdropWhile_prefix _ _
    have hpos : 0 < (trimStart s).length := by
      rw [← htail, List.length_append]
      omega
    have hhead := List.dropWhile_get_zero_not isWhitespace s hpos
    have hsame : (trim s)[0] = (trimStart s)[0] := by
      simp only [← htail, List.getElem_append_left hl]
    rw [hsame]
    simpa [trimStart] using hhead
  show (trimStart (trim s)).rdropWhile isWhitespace = trim s
  rw [hstart]
  exact List.rdropWhile_idempotent _ _

/-- A text is trimmed when it neither begins nor ends with white
space. -/
theorem trim_eq_self_iff {s : List Char} :
    trim s = s ↔ (∀ c ∈ s.head?, isWhitespace c = false)
      ∧ ∀ c ∈ s.getLast?, isWhitespace c = false := by
  constructor
  · intro h
    have hstart : trimStart s = s := by
      have hsub : trim s <+: trimStart s := List.rdropWhile_prefix _ _
      rw [h] at hsub
      exact (List.dropWhile_suffix _).eq_of_length
        (Nat.le_antisymm (List.dropWhile_suffix _).length_le hsub.length_le)
    constructor
    · intro c hc
      obtain ⟨rest, rfl⟩ := List.head?_eq_some_iff.1 hc
      have := List.dropWhile_eq_self_iff.1 hstart (by simp)
      simpa using this
    · intro c hc
      have hend : s.rdropWhile isWhitespace = s := by
        have : (trimStart s).rdropWhile isWhitespace = s := h
        rwa [hstart] at this
      have hne : s ≠ [] := by rintro rfl; cases hc
      rw [List.getLast?_eq_some_getLast hne] at hc
      have := List.rdropWhile_eq_self_iff.1 hend hne
      simp_all
  · rintro ⟨hhead, hlast⟩
    have hstart : trimStart s = s := by
      rw [trimStart, List.dropWhile_eq_self_iff]
      intro hpos
      have := hhead s[0] (by rw [List.head?_eq_getElem?, List.getElem?_eq_getElem hpos]; rfl)
      simpa using this
    rw [trim, hstart, List.rdropWhile_eq_self_iff]
    intro hne
    have := hlast _ (List.getLast?_eq_some_getLast hne)
    simpa using this

private theorem rdropWhile_append_blank (s : List Char) {gap : List Char}
    (h : ∀ c ∈ gap, isWhitespace c = true) :
    (s ++ gap).rdropWhile isWhitespace = s.rdropWhile isWhitespace := by
  induction gap using List.reverseRecOn with
  | nil => rw [List.append_nil]
  | append_singleton gap c ih =>
      rw [← List.append_assoc, List.rdropWhile_concat_pos _ _ _ (h c (by simp))]
      exact ih fun d hd => h d (by simp [hd])

/-- White space at the end of a text is trimmed off. -/
theorem trim_append_blank (s : List Char) {gap : List Char}
    (h : ∀ c ∈ gap, isWhitespace c = true) : trim (s ++ gap) = trim s := by
  unfold trim trimStart
  rw [List.dropWhile_append]
  split
  next hnil =>
    rw [List.isEmpty_iff.1 hnil, List.dropWhile_eq_nil_iff.2 h]
  next => exact rdropWhile_append_blank _ h

/-- A text that does not begin with white space is trimmed only at its
end. -/
theorem trim_append_rest {s : List Char}
    (h : ∀ c ∈ s.head?, isWhitespace c = false) :
    trim s ++ s.rtakeWhile isWhitespace = s := by
  have hstart : trimStart s = s := by
    rw [trimStart, List.dropWhile_eq_self_iff]
    intro hpos
    have := h s[0] (by
      rw [List.head?_eq_getElem?, List.getElem?_eq_getElem hpos]
      rfl)
    simpa using this
  rw [trim, hstart, List.rdropWhile_append_rtakeWhile]

/-- The pieces of a text do not hold the separator. -/
theorem not_mem_splitOn {c : Char} {s p : List Char}
    (h : p ∈ s.splitOn c) : c ∉ p := by
  induction s generalizing p with
  | nil =>
      rw [List.splitOn_nil, List.mem_singleton] at h
      simp [h]
  | cons x s ih =>
      rw [List.splitOn_cons_eq_if_modifyHead] at h
      split at h
      next =>
        rcases List.mem_cons.1 h with rfl | h
        · simp
        · exact ih h
      next hne =>
        cases hs : s.splitOn c with
        | nil => exact absurd hs (List.splitOn_ne_nil _ _)
        | cons q qs =>
            rw [hs, List.modifyHead_cons, List.mem_cons] at h
            rw [hs] at ih
            rcases h with rfl | h
            · rw [List.mem_cons, not_or]
              exact ⟨fun he => hne (by simp [he]), ih (by simp)⟩
            · exact ih (by simp [h])

/-- What is read back from a column is its pieces. -/
theorem piece_of_mem_splitComma {s p : String} (h : p ∈ splitComma s) :
    Piece p := by
  obtain ⟨t, ht, hp⟩ := List.mem_filterMap.1 h
  obtain ⟨u, hu, rfl⟩ := List.mem_map.1 ht
  split at hp
  next => cases hp
  next hne =>
    cases hp
    refine ⟨fun he => hne ?_, ?_, ?_⟩
    · simpa using congrArg String.toList he
    · rw [String.toList_ofList]
      refine fun hc => not_mem_splitOn hu ?_
      have hsub : trim u ⊆ u := fun c hc =>
        (List.dropWhile_suffix _).subset ((List.rdropWhile_prefix _ _).subset hc)
      exact hsub hc
    · rw [String.toList_ofList, trim_trim]

/-- Pieces survive being joined and read back. -/
theorem splitComma_join {parts : List String}
    (h : ∀ p ∈ parts, Piece p) : splitComma (join "," parts) = parts := by
  cases hparts : parts with
  | nil => decide
  | cons p rest =>
      rw [← hparts]
      have hsplit : (join "," parts).toList.splitOn ','
          = parts.map String.toList := by
        rw [join, String.toList_ofList]
        refine List.splitOn_intercalate ',' ?_ (by simp [hparts])
        intro l hl
        obtain ⟨q, hq, rfl⟩ := List.mem_map.1 hl
        exact (h q hq).2.1
      rw [splitComma, hsplit, List.map_map]
      clear hsplit hparts
      induction parts with
      | nil => rfl
      | cons q qs ih =>
          obtain ⟨⟨hne, -, htrim⟩, hqs⟩ := List.forall_mem_cons.1 h
          have hnil : q.toList ≠ [] := fun he => hne (String.toList_eq_nil_iff.1 he)
          rw [List.map_cons, List.filterMap_cons, Function.comp_apply, htrim,
            if_neg hnil, String.ofList_toList, ih hqs]

end Autofork.Lib
