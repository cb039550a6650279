/-
Logs, newest entry first: the shapes a statement about a run takes once
the run keeps one. Something happens at most once; something has
happened since some other thing last did; each entry is justified by
what came before it; one entry came after another.

Only the last is about positions, which count from the oldest entry and
so stay what they are as the log grows.
-/
import Mathlib.Data.List.Pairwise
import Mathlib.Data.List.Infix

namespace Autofork.Lib

variable {ω : Type} {P Q : ω → Prop}

-- ======================================================== at most once

/-- At most one entry satisfies `P`. -/
def AtMostOne (P : ω → Prop) (l : List ω) : Prop :=
  l.Pairwise fun x y => ¬(P x ∧ P y)

theorem atMostOne_nil : AtMostOne P [] := List.Pairwise.nil

theorem atMostOne_cons {x : ω} {l : List ω} :
    AtMostOne P (x :: l) ↔ (P x → ∀ y ∈ l, ¬P y) ∧ AtMostOne P l := by
  simp only [AtMostOne, List.pairwise_cons, not_and]
  exact and_congr_left fun _ => ⟨fun h hx y hy => h y hy hx,
    fun h y hy hx => h hx y hy⟩

/-- Entries that do not satisfy `P` do not matter. -/
theorem atMostOne_append {xs l : List ω} (hxs : ∀ x ∈ xs, ¬P x) :
    AtMostOne P (xs ++ l) ↔ AtMostOne P l := by
  induction xs with
  | nil => rfl
  | cons x xs ih =>
      rw [List.forall_mem_cons] at hxs
      rw [List.cons_append, atMostOne_cons, ih hxs.2]
      simp [hxs.1]

theorem AtMostOne.eq {l : List ω} (h : AtMostOne P l) {x y : ω}
    (hx : x ∈ l) (hy : y ∈ l) (hPx : P x) (hPy : P y) : x = y := by
  induction l with
  | nil => cases hx
  | cons z l ih =>
      obtain ⟨hz, hl⟩ := atMostOne_cons.1 h
      rcases List.mem_cons.1 hx with rfl | hxl
      · rcases List.mem_cons.1 hy with rfl | hyl
        · rfl
        · exact absurd hPy (hz hPx y hyl)
      · rcases List.mem_cons.1 hy with rfl | hyl
        · exact absurd hPx (hz hPy x hxl)
        · exact ih hl hxl hyl

-- =============================================================== since

/-- Some entry satisfies `P`, and none after it satisfies `Q`. -/
def Since (P Q : ω → Prop) : List ω → Prop
  | [] => False
  | x :: l => P x ∨ (¬Q x ∧ Since P Q l)

instance Since.decidable [DecidablePred P] [DecidablePred Q] :
    ∀ l : List ω, Decidable (Since P Q l)
  | [] => isFalse id
  | _ :: l =>
      have := Since.decidable l
      inferInstanceAs (Decidable (_ ∨ (¬_ ∧ _)))

theorem since_append {xs l : List ω} (hxs : ∀ x ∈ xs, ¬P x) :
    Since P Q (xs ++ l) ↔ Since P Q l ∧ ∀ x ∈ xs, ¬Q x := by
  induction xs with
  | nil => simp
  | cons x xs ih =>
      rw [List.forall_mem_cons] at hxs
      rw [List.cons_append, Since, ih hxs.2, List.forall_mem_cons]
      constructor
      · rintro (hP | ⟨hx, hl, hrest⟩)
        · exact absurd hP hxs.1
        · exact ⟨hl, hx, hrest⟩
      · rintro ⟨hl, hx, hrest⟩
        exact .inr ⟨hx, hl, hrest⟩

theorem since_grow {xs l : List ω} (hxs : ∀ x ∈ xs, ¬Q x)
    (h : Since P Q l) : Since P Q (xs ++ l) := by
  induction xs with
  | nil => exact h
  | cons x xs ih =>
      rw [List.forall_mem_cons] at hxs
      exact .inr ⟨hxs.1, ih hxs.2⟩

/-- Where nothing satisfies `P`, there is nothing to look for. -/
theorem since_append_inert {xs l : List ω} (hl : ∀ x ∈ l, ¬P x) :
    Since P Q (xs ++ l) ↔ Since P Q xs := by
  induction xs with
  | nil =>
      induction l with
      | nil => rfl
      | cons x l ih =>
          rw [List.forall_mem_cons] at hl
          exact ⟨fun h => h.elim (absurd · hl.1) fun h => (ih hl.2).1 h.2,
            fun h => by cases h⟩
  | cons x xs ih => simp only [List.cons_append, Since, ih]

theorem Since.exists_mem {l : List ω} (h : Since P Q l) :
    ∃ x ∈ l, P x := by
  induction l with
  | nil => cases h
  | cons x l ih =>
      rcases h with hP | ⟨-, h⟩
      · exact ⟨x, by simp, hP⟩
      · obtain ⟨y, hy, hP⟩ := ih h
        exact ⟨y, by simp [hy], hP⟩

theorem since_of_mem {l : List ω} {x : ω} (hx : x ∈ l) (hP : P x)
    (hQ : ∀ y ∈ l, ¬Q y) : Since P Q l := by
  induction l with
  | nil => cases hx
  | cons y l ih =>
      rw [List.forall_mem_cons] at hQ
      rcases List.mem_cons.1 hx with rfl | hx
      · exact .inl hP
      · exact .inr ⟨hQ.1, ih hx hQ.2⟩

theorem since_iff {l : List ω} : Since P Q l
    ↔ ∃ xs x ys, l = xs ++ x :: ys ∧ P x ∧ ∀ y ∈ xs, ¬Q y := by
  induction l with
  | nil => simp [Since]
  | cons y l ih =>
      constructor
      · rintro (hP | ⟨hy, h⟩)
        · exact ⟨[], y, l, rfl, hP, by simp⟩
        · obtain ⟨xs, x, ys, rfl, hP, hxs⟩ := ih.1 h
          exact ⟨y :: xs, x, ys, rfl, hP, by simpa [hy] using hxs⟩
      · rintro ⟨xs, x, ys, heq, hP, hxs⟩
        cases xs with
        | nil =>
            rw [List.nil_append, List.cons.injEq] at heq
            exact .inl (heq.1 ▸ hP)
        | cons z xs =>
            rw [List.cons_append, List.cons.injEq] at heq
            rw [List.forall_mem_cons] at hxs
            exact .inr ⟨heq.1 ▸ hxs.1, ih.2 ⟨xs, x, ys, heq.2, hP, hxs.2⟩⟩

-- =========================================================== follows

/-- Some entry that satisfies `Q` came after one that satisfies `P`. -/
def Follows (P Q : ω → Prop) : List ω → Prop
  | [] => False
  | x :: l => (Q x ∧ ∃ y ∈ l, P y) ∨ Follows P Q l

/-- Only an entry that satisfies `Q` follows anything. -/
theorem follows_append {xs l : List ω} (hxs : ∀ x ∈ xs, ¬Q x) :
    Follows P Q (xs ++ l) ↔ Follows P Q l := by
  induction xs with
  | nil => rfl
  | cons x xs ih =>
      rw [List.forall_mem_cons] at hxs
      rw [List.cons_append, Follows, ih hxs.2]
      exact or_iff_right fun h => hxs.1 h.1

theorem follows_of_mem {xs l : List ω} {x y : ω} (hx : x ∈ xs) (hQ : Q x)
    (hy : y ∈ l) (hP : P y) : Follows P Q (xs ++ l) := by
  induction xs with
  | nil => cases hx
  | cons z xs ih =>
      rcases List.mem_cons.1 hx with rfl | hx
      · exact .inl ⟨hQ, y, List.mem_append_right _ hy, hP⟩
      · exact .inr (ih hx)

theorem Follows.exists_mem {l : List ω} (h : Follows P Q l) :
    ∃ x ∈ l, P x := by
  induction l with
  | nil => cases h
  | cons x l ih =>
      rcases h with ⟨-, y, hy, hP⟩ | h
      · exact ⟨y, List.mem_cons_of_mem _ hy, hP⟩
      · obtain ⟨y, hy, hP⟩ := ih h
        exact ⟨y, List.mem_cons_of_mem _ hy, hP⟩

/-- What has followed, has followed. -/
theorem Follows.grow {l l' : List ω} (hl : l <:+ l') (h : Follows P Q l) :
    Follows P Q l' := by
  obtain ⟨xs, rfl⟩ := hl
  induction xs with
  | nil => exact h
  | cons x xs ih => exact .inr ih

-- ======================================================== justified

/-- Each entry stands in `J` to the entries before it. -/
def Each (J : ω → List ω → Prop) : List ω → Prop
  | [] => True
  | x :: l => J x l ∧ Each J l

instance Each.decidable {J : ω → List ω → Prop} [∀ x l, Decidable (J x l)] :
    ∀ l : List ω, Decidable (Each J l)
  | [] => isTrue trivial
  | _ :: l =>
      have := Each.decidable (J := J) l
      inferInstanceAs (Decidable (_ ∧ _))

theorem Each.append {J : ω → List ω → Prop} {xs l : List ω}
    (hxs : ∀ x ∈ xs, ∀ l, J x l) (h : Each J l) : Each J (xs ++ l) := by
  induction xs with
  | nil => exact h
  | cons x xs ih =>
      rw [List.forall_mem_cons] at hxs
      exact ⟨hxs.1 _, ih hxs.2⟩

theorem Each.of_suffix {J : ω → List ω → Prop} {l : List ω} {x : ω}
    {l' : List ω} (h : Each J l) (hs : x :: l' <:+ l) : J x l' := by
  induction l with
  | nil => exact absurd (List.suffix_nil.1 hs) (by simp)
  | cons y l ih =>
      rcases List.suffix_cons_iff.1 hs with heq | hs
      · obtain ⟨rfl, rfl⟩ := List.cons.inj heq
        exact h.1
      · exact ih h.2 hs

-- ======================================================== later entries

/-- What was logged after `l₀`. -/
def newer (l₀ l : List ω) : List ω := l.take (l.length - l₀.length)

theorem newer_append (xs l₀ : List ω) : newer l₀ (xs ++ l₀) = xs := by
  simp [newer]

theorem newer_of_suffix {l₀ l : List ω} (h : l₀ <:+ l) :
    newer l₀ l ++ l₀ = l := by
  obtain ⟨xs, rfl⟩ := h
  rw [newer_append]

-- ======================================================== positions

/-- The `n`-th entry logged. -/
def entry (l : List ω) (n : Nat) : Option ω := l.reverse[n]?

theorem entry_lt {l : List ω} {n : Nat} {x : ω} (h : entry l n = some x) :
    n < l.length := by
  have := (List.getElem?_eq_some_iff.1 h).1
  rwa [List.length_reverse] at this

theorem entry_append (xs : List ω) {l : List ω} {n : Nat} {x : ω}
    (h : entry l n = some x) : entry (xs ++ l) n = some x := by
  have hn := entry_lt h
  rw [entry, List.reverse_append, List.getElem?_append_left (by simpa)]
  exact h

/-- An entry of a log is an old one or a new one. -/
theorem entry_append_cases {xs l : List ω} {n : Nat} {x : ω}
    (h : entry (xs ++ l) n = some x) : entry l n = some x ∨ x ∈ xs := by
  by_cases hn : n < l.length
  · rw [entry, List.reverse_append,
      List.getElem?_append_left (by simpa using hn)] at h
    exact .inl h
  · rw [entry, List.reverse_append,
      List.getElem?_append_right (by simpa using hn)] at h
    exact .inr (List.mem_reverse.1 (List.mem_of_getElem? h))

theorem entry_mem {l : List ω} {n : Nat} {x : ω} (h : entry l n = some x) :
    x ∈ l :=
  List.mem_reverse.1 (List.mem_of_getElem? h)

theorem entry_grow {l l' : List ω} (hl : l <:+ l') {n : Nat} {x : ω}
    (h : entry l n = some x) : entry l' n = some x := by
  obtain ⟨xs, rfl⟩ := hl
  exact entry_append xs h

theorem entry_length (x : ω) (l : List ω) :
    entry (x :: l) l.length = some x := by
  simp [entry]

/-- What is logged now comes after everything logged before. -/
theorem entry_new {xs l : List ω} {x : ω} (hx : x ∈ xs) :
    ∃ n, l.length ≤ n ∧ entry (xs ++ l) n = some x := by
  obtain ⟨i, hi⟩ := List.mem_iff_getElem?.1 (List.mem_reverse.2 hx)
  refine ⟨l.length + i, Nat.le_add_right _ _, ?_⟩
  rw [entry, List.reverse_append, List.getElem?_append_right (by simp)]
  simpa using hi

end Autofork.Lib
