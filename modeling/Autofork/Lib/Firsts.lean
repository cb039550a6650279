/-
The first element of each key in a list, in order.

Going through a list and keeping what has a new key (`keepNew`) keeps
exactly those (`foldl_keepNew`): an element stays when none before it
has its key (`mem_firsts_iff`), no key stays twice, and every key has
an element that stays.
-/
import Mathlib.Data.List.Nodup

namespace Autofork.Lib

variable {α κ : Type} [DecidableEq κ] (key : α → κ)

/-- The first element of each key. -/
def firsts : List α → List α
  | [] => []
  | x :: xs => x :: (firsts xs).filter fun y => key y ≠ key x

/-- Append an element, unless its key is taken. -/
def keepNew (acc : List α) (x : α) : List α :=
  if key x ∈ acc.map key then acc else acc ++ [x]

variable {key}

theorem nodup_firsts (xs : List α) : ((firsts key xs).map key).Nodup := by
  induction xs with
  | nil => exact List.nodup_nil
  | cons x xs ih =>
      rw [firsts, List.map_cons, List.nodup_cons]
      constructor
      · intro h
        obtain ⟨y, hy, hkey⟩ := List.mem_map.1 h
        have hne := (List.mem_filter.1 hy).2
        exact absurd hkey (by simpa using hne)
      · exact ih.sublist (List.filter_sublist.map key)

theorem mem_firsts_iff {xs : List α} {x : α} :
    x ∈ firsts key xs ↔ ∃ before after, xs = before ++ x :: after
      ∧ ∀ y ∈ before, key y ≠ key x := by
  induction xs with
  | nil => simp [firsts]
  | cons z xs ih =>
      rw [firsts, List.mem_cons, List.mem_filter, ih]
      constructor
      · rintro (rfl | ⟨⟨before, after, rfl, hbefore⟩, hne⟩)
        · exact ⟨[], xs, rfl, by simp⟩
        · refine ⟨z :: before, after, rfl, ?_⟩
          intro y hy
          rcases List.mem_cons.1 hy with rfl | hy
          · exact Ne.symm (by simpa using hne)
          · exact hbefore y hy
      · rintro ⟨before, after, hsplit, hbefore⟩
        cases before with
        | nil => exact .inl (List.cons.inj hsplit).1.symm
        | cons y before =>
            obtain ⟨rfl, rfl⟩ := List.cons.inj hsplit
            refine .inr ⟨⟨before, after, rfl, ?_⟩, ?_⟩
            · exact fun w hw => hbefore w (List.mem_cons_of_mem _ hw)
            · exact decide_eq_true (Ne.symm (hbefore z List.mem_cons_self))

/-- Keeping what is new, after some elements have been kept. -/
theorem foldl_keepNew (xs acc : List α) :
    xs.foldl (keepNew key) acc
      = acc ++ (firsts key xs).filter fun x => key x ∉ acc.map key := by
  induction xs generalizing acc with
  | nil => simp [firsts]
  | cons x xs ih =>
      rw [List.foldl_cons, ih, firsts, List.filter_cons, List.filter_filter,
        keepNew]
      split
      next hin =>
        rw [if_neg (by simpa using hin)]
        congr 1
        refine List.filter_congr fun y _ => ?_
        by_cases hy : key y = key x
        · simp [hy, hin]
        · simp [hy]
      next hout =>
        rw [if_pos (by simpa using hout), List.append_assoc,
          List.singleton_append]
        congr 2
        refine List.filter_congr fun y _ => ?_
        have hmem : key y ∉ (acc ++ [x]).map key
            ↔ key y ∉ acc.map key ∧ key y ≠ key x := by
          rw [List.map_append, List.mem_append, List.map_singleton,
            List.mem_singleton, not_or]
        rw [decide_eq_decide.2 hmem, Bool.decide_and]

theorem foldl_keepNew_nil (xs : List α) :
    xs.foldl (keepNew key) [] = firsts key xs := by
  rw [foldl_keepNew]
  simp

end Autofork.Lib
