/-
The marked elements of a list, by rank.

An element's rank is the number of marked ones before it. It stays what
it is as the list grows at its end, whatever is appended, so the marked
elements of two growing lists can be told to stand abreast of one
another even though their positions differ.
-/
import Mathlib.Data.List.Forall2
import Mathlib.Logic.Relator

namespace Autofork.Lib

variable {α : Type} {p : α → Bool} {l l' : List α} {k k' : Nat}

/-- How many marked elements there are before position `k`. -/
def rank (p : α → Bool) (l : List α) (k : Nat) : Nat := (l.take k).countP p

/-- Position `k` holds a marked element. -/
def Marked (p : α → Bool) (l : List α) (k : Nat) : Prop :=
  ∃ x, l[k]? = some x ∧ p x = true

theorem Marked.lt (h : Marked p l k) : k < l.length := by
  obtain ⟨x, hx, -⟩ := h
  exact (List.getElem?_eq_some_iff.1 hx).1

theorem Marked.le (h : Marked p l k) : k ≤ l.length := Nat.le_of_lt h.lt

-- ================================================================ ranks

theorem rank_append (hk : k ≤ l.length) (m : List α) :
    rank p (l ++ m) k = rank p l k := by
  rw [rank, List.take_append_of_le_length hk, rank]

theorem rank_length (m : List α) :
    rank p (l ++ m) l.length = l.countP p := by
  rw [rank, List.take_left]

/-- Past a marked element the rank is higher. -/
theorem Marked.rank_lt (h : Marked p l k) (hk : k < k') :
    rank p l k < rank p l k' := by
  obtain ⟨x, hx, hp⟩ := h
  obtain ⟨n, rfl⟩ := Nat.exists_eq_add_of_lt hk
  have htake : l.take (k + n + 1)
      = l.take k ++ x :: (l.drop (k + 1)).take n := by
    rw [show k + n + 1 = k + (n + 1) by omega, List.take_add,
      List.drop_eq_getElem?_toList_append, hx, Option.toList_some,
      List.singleton_append, List.take_succ_cons]
  rw [rank, rank, htake, List.countP_append, List.countP_cons, if_pos hp]
  omega

theorem Marked.rank_lt_countP (h : Marked p l k) : rank p l k < l.countP p := by
  have hlt := h.rank_lt h.lt
  rwa [rank, rank, List.take_length] at hlt

/-- Marked elements of the same rank are the same. -/
theorem Marked.eq_of_rank (h : Marked p l k) (h' : Marked p l k')
    (heq : rank p l k = rank p l k') : k = k' := by
  rcases Nat.lt_trichotomy k k' with hlt | heq | hlt
  · have := h.rank_lt hlt
    omega
  · exact heq
  · have := h'.rank_lt hlt
    omega

theorem marked_append (x : α) :
    Marked p (l ++ [x]) k ↔ Marked p l k ∨ (k = l.length ∧ p x = true) := by
  unfold Marked
  rcases Nat.lt_trichotomy k l.length with hlt | rfl | hlt
  · rw [List.getElem?_append_left hlt]
    exact ⟨.inl, fun h => h.resolve_right fun h => absurd h.1 (by omega)⟩
  · simp
  · rw [List.getElem?_eq_none (by simp; omega),
      List.getElem?_eq_none (by omega)]
    simp
    omega

-- ============================================================== abreast

/-- Marked elements of the same rank in two lists. -/
def Abreast (p : α → Bool) (l l' : List α) (k k' : Nat) : Prop :=
  Marked p l k ∧ Marked p l' k' ∧ rank p l k = rank p l' k'

theorem abreast_biUnique (p : α → Bool) (l l' : List α) :
    Relator.BiUnique (Abreast p l l') := by
  constructor
  · intro k₁ k' k₂ h₁ h₂
    exact h₁.1.eq_of_rank h₂.1 (h₁.2.2.trans h₂.2.2.symm)
  · intro k k₁ k₂ h₁ h₂
    exact h₁.2.1.eq_of_rank h₂.2.1 (h₁.2.2.symm.trans h₂.2.2)

/-- What is not marked changes nothing. -/
theorem abreast_append_left {x : α} (hx : p x = false) :
    Abreast p (l ++ [x]) l' k k' ↔ Abreast p l l' k k' := by
  have hmarked : Marked p (l ++ [x]) k ↔ Marked p l k := by
    rw [marked_append, hx]
    simp
  unfold Abreast
  rw [hmarked]
  refine and_congr_right fun h => ?_
  rw [rank_append h.le]

theorem Abreast.symm (h : Abreast p l l' k k') : Abreast p l' l k' k :=
  ⟨h.2.1, h.1, h.2.2.symm⟩

theorem abreast_append_right {x : α} (hx : p x = false) :
    Abreast p l (l' ++ [x]) k k' ↔ Abreast p l l' k k' :=
  ⟨fun h => ((abreast_append_left hx).1 h.symm).symm,
    fun h => ((abreast_append_left hx).2 h.symm).symm⟩

/-- One more marked element on either side. -/
theorem abreast_append {x x' : α} (hx : p x = true) (hx' : p x' = true)
    (hcount : l.countP p = l'.countP p) :
    Abreast p (l ++ [x]) (l' ++ [x']) k k'
      ↔ Abreast p l l' k k' ∨ (k = l.length ∧ k' = l'.length) := by
  unfold Abreast
  rw [marked_append, marked_append, hx, hx']
  simp only [and_true]
  constructor
  · rintro ⟨h | rfl, h' | rfl, hrank⟩
    · rw [rank_append h.le, rank_append h'.le] at hrank
      exact .inl ⟨h, h', hrank⟩
    · rw [rank_append h.le, rank_length] at hrank
      have := h.rank_lt_countP
      omega
    · rw [rank_append h'.le, rank_length] at hrank
      have := h'.rank_lt_countP
      omega
    · exact .inr ⟨rfl, rfl⟩
  · rintro (⟨h, h', hrank⟩ | ⟨rfl, rfl⟩)
    · rw [rank_append h.le, rank_append h'.le]
      exact ⟨.inl h, .inl h', hrank⟩
    · rw [rank_length, rank_length]
      exact ⟨.inr rfl, .inr rfl, hcount⟩

-- ============================================== among the marked alone

/-- A marked element among the marked ones. -/
theorem Marked.getElem?_filter (h : Marked p l k) :
    (l.filter p)[rank p l k]? = l[k]? := by
  induction l generalizing k with
  | nil => exact absurd h.lt (by simp)
  | cons x l ih =>
      cases k with
      | zero =>
          obtain ⟨y, hy, hp⟩ := h
          rw [List.getElem?_cons_zero, Option.some.injEq] at hy
          subst hy
          simp [rank, hp]
      | succ k =>
          have hih := ih (k := k) h
          unfold rank at hih ⊢
          rw [List.take_succ_cons, List.countP_cons, List.filter_cons]
          split
          · rw [List.getElem?_cons_succ, List.getElem?_cons_succ, hih]
          · rw [List.getElem?_cons_succ, Nat.add_zero, hih]

/-- Taking a marked element out. -/
theorem Marked.filter_eraseIdx (h : Marked p l k) :
    (l.eraseIdx k).filter p = (l.filter p).eraseIdx (rank p l k) := by
  induction l generalizing k with
  | nil => exact absurd h.lt (by simp)
  | cons x l ih =>
      cases k with
      | zero =>
          obtain ⟨y, hy, hp⟩ := h
          rw [List.getElem?_cons_zero, Option.some.injEq] at hy
          subst hy
          simp [rank, hp]
      | succ k =>
          have hih := ih (k := k) h
          unfold rank at hih ⊢
          rw [List.eraseIdx_cons_succ, List.take_succ_cons, List.countP_cons,
            List.filter_cons, List.filter_cons]
          split
          · rw [List.eraseIdx_cons_succ, hih]
          · rw [Nat.add_zero, hih]

/-- Taking another one out. -/
theorem filter_eraseIdx_of_unmarked {x : α} (hx : l[k]? = some x)
    (hp : p x = false) : (l.eraseIdx k).filter p = l.filter p := by
  induction l generalizing k with
  | nil => cases hx
  | cons y l ih =>
      cases k with
      | zero =>
          rw [List.getElem?_cons_zero, Option.some.injEq] at hx
          subst hx
          simp [hp]
      | succ k =>
          rw [List.eraseIdx_cons_succ, List.filter_cons, List.filter_cons,
            ih (k := k) hx]

theorem forall₂_eraseIdx {β : Type} {R : α → β → Prop} {m : List β}
    (h : List.Forall₂ R l m) (i : Nat) :
    List.Forall₂ R (l.eraseIdx i) (m.eraseIdx i) := by
  induction h generalizing i with
  | nil => exact .nil
  | cons hx hl ih =>
      cases i with
      | zero => exact hl
      | succ i => exact .cons hx (ih i)

theorem forall₂_getElem? {β : Type} {R : α → β → Prop} {m : List β}
    (h : List.Forall₂ R l m) {i : Nat} {x : α} {y : β} (hx : l[i]? = some x)
    (hy : m[i]? = some y) : R x y := by
  induction h generalizing i with
  | nil => cases hx
  | cons hxy hl ih =>
      cases i with
      | zero =>
          rw [List.getElem?_cons_zero, Option.some.injEq] at hx hy
          exact hx ▸ hy ▸ hxy
      | succ i => exact ih hx hy

end Autofork.Lib
