/-
The complete lines of a text that is only appended to: each with its
separator, what follows the last separator left out.

A text is `Whole` when nothing follows its last separator. What has been
read of a growing text is a whole prefix of it, and the lines of the
text are those of the prefix and those of the rest. Reading line after
line gives the complete lines and then the start of one more, if there
is one (`allLines_eq`).
-/
import Mathlib.Data.List.Basic

namespace Autofork.Lib

variable {α : Type} [DecidableEq α] {sep : α}

/-- The lines that are complete. -/
def completeLines (sep : α) : List α → List (List α)
  | [] => []
  | c :: s =>
      if c = sep then [c] :: completeLines sep s
      else match completeLines sep s with
        | [] => []
        | l :: ls => (c :: l) :: ls

/-- Nothing follows the last separator. -/
def Whole (sep : α) (s : List α) : Prop := s = [] ∨ s.getLast? = some sep

/-- The part of a text that its complete lines make up. -/
def wholePart (sep : α) (s : List α) : List α := (completeLines sep s).flatten

omit [DecidableEq α] in
theorem Whole.tail {c : α} {s : List α} (h : Whole sep (c :: s)) :
    Whole sep s := by
  cases s with
  | nil => exact .inl rfl
  | cons d s =>
      rcases h with h | h
      · cases h
      · exact .inr (by rw [← h, List.getLast?_cons_cons])

omit [DecidableEq α] in
theorem Whole.append {s t : List α} (hs : Whole sep s) (ht : Whole sep t) :
    Whole sep (s ++ t) := by
  rcases ht with rfl | ht
  · rwa [List.append_nil]
  · refine .inr ?_
    rw [List.getLast?_append, ht]
    rfl

theorem wholePart_of_whole {s : List α} (h : Whole sep s) :
    wholePart sep s = s := by
  induction s with
  | nil => rfl
  | cons c s ih =>
      have hs := ih h.tail
      unfold wholePart at hs ⊢
      rw [completeLines]
      split
      · rw [List.flatten_cons, hs]
        rfl
      next hc =>
        cases hl : completeLines sep s with
        | nil =>
            rw [hl] at hs
            rw [← hs] at h
            rcases h with h | h
            · cases h
            · exact absurd (by simpa using h) hc
        | cons l ls =>
            rw [hl] at hs
            rw [List.flatten_cons, List.cons_append, ← List.flatten_cons, hs]

/-- The lines before a point between two lines, and those after it. -/
theorem completeLines_append {s : List α} (h : Whole sep s) (t : List α) :
    completeLines sep (s ++ t)
      = completeLines sep s ++ completeLines sep t := by
  induction s with
  | nil => rfl
  | cons c s ih =>
      rw [List.cons_append, completeLines, ih h.tail, completeLines]
      split
      · rfl
      next hc =>
        cases hl : completeLines sep s with
        | cons l ls => rfl
        | nil =>
            have hs := wholePart_of_whole h.tail
            rw [wholePart, hl] at hs
            rw [← hs] at h
            rcases h with h | h
            · cases h
            · exact absurd (by simpa using h) hc

theorem whole_of_mem {l s : List α} (h : l ∈ completeLines sep s) :
    l.getLast? = some sep := by
  induction s generalizing l with
  | nil => cases h
  | cons c s ih =>
      rw [completeLines] at h
      split at h
      next hc =>
        rcases List.mem_cons.1 h with rfl | h
        · exact congrArg some hc
        · exact ih h
      next hc =>
        cases hl : completeLines sep s with
        | nil =>
            rw [hl] at h
            cases h
        | cons l' ls =>
            rw [hl] at h ih
            rcases List.mem_cons.1 h with rfl | h
            · have hl' := ih (l := l') (by simp)
              cases l' with
              | nil => cases hl'
              | cons d l' => rw [List.getLast?_cons_cons, hl']
            · exact ih (by simp [h])

theorem whole_wholePart (s : List α) : Whole sep (wholePart sep s) := by
  have hlines : ∀ ls : List (List α), (∀ l ∈ ls, l.getLast? = some sep) →
      Whole sep ls.flatten := by
    intro ls hls
    induction ls with
    | nil => exact .inl rfl
    | cons l ls ih =>
        rw [List.flatten_cons]
        refine Whole.append (.inr (hls l (by simp))) (ih fun l' hl' => ?_)
        exact hls l' (by simp [hl'])
  exact hlines _ fun l hl => whole_of_mem hl

/-- A text is its complete lines, and the start of one more. -/
theorem prefix_wholePart (s : List α) : wholePart sep s <+: s := by
  induction s with
  | nil => exact List.prefix_refl _
  | cons c s ih =>
      unfold wholePart at ih ⊢
      rw [completeLines]
      split
      · rw [List.flatten_cons, List.singleton_append]
        exact List.cons_prefix_cons.2 ⟨rfl, ih⟩
      · split
        · exact List.nil_prefix
        next l ls hl =>
          rw [hl, List.flatten_cons] at ih
          rw [List.flatten_cons, List.cons_append]
          exact List.cons_prefix_cons.2 ⟨rfl, ih⟩

@[simp] theorem completeLines_wholePart (s : List α) :
    completeLines sep (wholePart sep s) = completeLines sep s := by
  obtain ⟨rest, hrest⟩ : wholePart sep s <+: s := prefix_wholePart s
  have hsplit : completeLines sep (wholePart sep s ++ rest) = _ :=
    completeLines_append (whole_wholePart s) rest
  rw [hrest] at hsplit
  have hflat := congrArg List.flatten hsplit
  rw [List.flatten_append] at hflat
  have hhead : (completeLines sep (wholePart sep s)).flatten = wholePart sep s :=
    wholePart_of_whole (whole_wholePart s)
  rw [hhead] at hflat
  have hnone : (completeLines sep rest).flatten = [] :=
    List.self_eq_append_right.1 hflat
  cases hl : completeLines sep rest with
  | nil => rw [hsplit, hl, List.append_nil]
  | cons l ls =>
      rw [hl, List.flatten_cons, List.append_eq_nil_iff] at hnone
      have hlast := whole_of_mem (hl ▸ List.mem_cons_self : l ∈ completeLines sep rest)
      rw [hnone.1] at hlast
      cases hlast

theorem wholePart_append {s : List α} (h : Whole sep s) (t : List α) :
    wholePart sep (s ++ t) = s ++ wholePart sep t := by
  rw [wholePart, completeLines_append h, List.flatten_append]
  exact congrArg (· ++ _) (wholePart_of_whole h)

/-- Where no separator is, the next line begins. -/
theorem completeLines_append_of_not_mem {s : List α} (h : sep ∉ s)
    (t : List α) :
    completeLines sep (s ++ t) = match completeLines sep t with
      | [] => []
      | l :: ls => (s ++ l) :: ls := by
  induction s with
  | nil => rw [List.nil_append]; cases completeLines sep t <;> rfl
  | cons c s ih =>
      have hc : c ≠ sep := fun hc => h (hc ▸ List.mem_cons_self)
      rw [List.cons_append, completeLines, if_neg hc,
        ih fun hs => h (List.mem_cons_of_mem _ hs)]
      cases completeLines sep t <;> rfl

-- ========================================================= the last line

/-- What follows the last separator. -/
def lastPart (sep : α) (s : List α) : List α :=
  s.drop (wholePart sep s).length

/-- The lines as they are read one after the other. -/
def allLines (sep : α) : List α → List (List α)
  | [] => []
  | c :: s =>
      if c = sep then [c] :: allLines sep s
      else match allLines sep s with
        | [] => [[c]]
        | l :: ls => (c :: l) :: ls

/-- A line comes off the front. -/
theorem allLines_append_cons {s : List α} (h : sep ∉ s) (t : List α) :
    allLines sep (s ++ sep :: t) = (s ++ [sep]) :: allLines sep t := by
  induction s with
  | nil => rw [List.nil_append, allLines, if_pos rfl, List.nil_append]
  | cons c s ih =>
      have hc : c ≠ sep := fun hc => h (hc ▸ List.mem_cons_self)
      rw [List.cons_append, allLines, if_neg hc,
        ih fun hs => h (List.mem_cons_of_mem _ hs), List.cons_append]

theorem wholePart_append_lastPart (s : List α) :
    wholePart sep s ++ lastPart sep s = s :=
  List.prefix_iff_eq_append.1 (prefix_wholePart s)

theorem lastPart_append {s : List α} (h : Whole sep s) (t : List α) :
    lastPart sep (s ++ t) = lastPart sep t := by
  rw [lastPart, wholePart_append h, List.length_append, ← List.drop_drop,
    List.drop_left]
  rfl

/-- A complete line stays one when the text grows. -/
theorem prefix_completeLines (s t : List α) :
    completeLines sep s <+: completeLines sep (s ++ t) := by
  have hsplit : completeLines sep (wholePart sep s ++ (lastPart sep s ++ t)) = _ :=
    completeLines_append (whole_wholePart s) _
  rw [← List.append_assoc, wholePart_append_lastPart,
    completeLines_wholePart] at hsplit
  exact ⟨_, hsplit.symm⟩

theorem completeLines_lastPart (s : List α) :
    completeLines sep (lastPart sep s) = [] := by
  have hsplit : completeLines sep (wholePart sep s ++ lastPart sep s) = _ :=
    completeLines_append (whole_wholePart s) _
  rw [wholePart_append_lastPart, completeLines_wholePart] at hsplit
  exact List.self_eq_append_right.1 hsplit

theorem lastPart_of_none {s : List α} (h : completeLines sep s = []) :
    lastPart sep s = s := by
  rw [lastPart, wholePart, h]
  rfl

/-- The last line that is read has no separator at its end. -/
theorem getLast?_lastPart (s : List α) :
    (lastPart sep s).getLast? ≠ some sep := by
  intro h
  have hwhole := wholePart_of_whole (.inr h : Whole sep (lastPart sep s))
  rw [wholePart, completeLines_lastPart, List.flatten_nil] at hwhole
  rw [← hwhole] at h
  cases h

theorem allLines_eq (s : List α) :
    allLines sep s
      = completeLines sep s
        ++ if lastPart sep s = [] then [] else [lastPart sep s] := by
  induction s with
  | nil => rfl
  | cons c s ih =>
      by_cases hc : c = sep
      · have hlast : lastPart sep (c :: s) = lastPart sep s :=
          lastPart_append (s := [c]) (.inr (congrArg some hc)) s
        rw [allLines, if_pos hc, ih, hlast, completeLines, if_pos hc,
          List.cons_append]
      · rw [allLines, if_neg hc, ih, completeLines, if_neg hc]
        cases hl : completeLines sep s with
        | nil =>
            have hlines : completeLines sep (c :: s) = [] := by
              rw [completeLines, if_neg hc, hl]
            rw [lastPart_of_none hl, lastPart_of_none hlines]
            cases s <;> rfl
        | cons l ls =>
            have hlast : lastPart sep (c :: s) = lastPart sep s := by
              rw [lastPart, lastPart, wholePart, wholePart, completeLines,
                if_neg hc, hl]
              rfl
            rw [hlast]
            rfl

end Autofork.Lib
