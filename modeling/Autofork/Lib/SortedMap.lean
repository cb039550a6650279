/-
Maps in the order of their keys, as a `BTreeMap` iterates over one.

`insertEntry` works on any list of entries, and what a lookup then finds
does not depend on their order; a `SortedMap` is a list that has one, so
that no key stands twice. `lookup_insertEach` is what a loop over one map
that inserts into another amounts to.
-/
import Mathlib.Data.List.Basic
import Mathlib.Order.Lattice

namespace Autofork.Lib

variable {κ ν μ : Type} [LinearOrder κ]

-- ============================================================ entries

/-- Insert in front of the greater keys, over an entry of the key. -/
def insertEntry (k : κ) (v : ν) : List (κ × ν) → List (κ × ν)
  | [] => [(k, v)]
  | e :: m =>
      if k < e.1 then (k, v) :: e :: m
      else if k = e.1 then (k, v) :: m
      else e :: insertEntry k v m

theorem lookup_cons_ite (k : κ) (e : κ × ν) (m : List (κ × ν)) :
    (e :: m).lookup k = if k = e.1 then some e.2 else m.lookup k := by
  rw [List.lookup_cons]
  by_cases hk : k = e.1
  · simp [hk]
  · rw [if_neg hk, beq_false_of_ne hk]

@[simp] theorem lookup_insertEntry (k k' : κ) (v : ν) (m : List (κ × ν)) :
    (insertEntry k v m).lookup k'
      = if k' = k then some v else m.lookup k' := by
  induction m with
  | nil => simp [insertEntry, lookup_cons_ite]
  | cons e m ih =>
      unfold insertEntry
      split
      · exact lookup_cons_ite k' (k, v) (e :: m)
      · split
        next heq =>
          rw [lookup_cons_ite, lookup_cons_ite, heq]
          by_cases hk : k' = e.1 <;> simp [hk]
        next hne =>
          rw [lookup_cons_ite, ih, lookup_cons_ite]
          by_cases hk : k' = e.1
          · have hk' : k' ≠ k := fun h => hne (h.symm.trans hk)
            rw [if_pos hk, if_neg hk', if_pos hk]
          · rw [if_neg hk, if_neg hk]

private theorem mem_insertEntry {k : κ} {v : ν} {m : List (κ × ν)}
    {e : κ × ν} (h : e ∈ insertEntry k v m) : e = (k, v) ∨ e ∈ m := by
  induction m with
  | nil => exact Or.inl (List.mem_singleton.1 h)
  | cons e' m ih =>
      unfold insertEntry at h
      split at h
      · exact List.mem_cons.1 h
      · split at h
        · exact (List.mem_cons.1 h).imp_right (List.mem_cons_of_mem _)
        · rcases List.mem_cons.1 h with rfl | h
          · exact Or.inr List.mem_cons_self
          · exact (ih h).imp_right (List.mem_cons_of_mem _)

private theorem sorted_insertEntry (k : κ) (v : ν) {m : List (κ × ν)}
    (h : m.Pairwise fun a b => a.1 < b.1) :
    (insertEntry k v m).Pairwise fun a b => a.1 < b.1 := by
  induction m with
  | nil => exact List.pairwise_singleton _ _
  | cons e m ih =>
      obtain ⟨hhead, htail⟩ := List.pairwise_cons.1 h
      unfold insertEntry
      split
      next hlt =>
        refine List.pairwise_cons.2 ⟨fun e' he' => ?_, h⟩
        rcases List.mem_cons.1 he' with rfl | he'
        · exact hlt
        · exact lt_trans hlt (hhead e' he')
      next hge =>
        split
        next heq =>
          refine List.pairwise_cons.2 ⟨fun e' he' => ?_, htail⟩
          exact heq ▸ hhead e' he'
        next hne =>
          refine List.pairwise_cons.2 ⟨fun e' he' => ?_, ih htail⟩
          rcases mem_insertEntry he' with rfl | he'
          · exact lt_of_le_of_ne (not_lt.1 hge) (Ne.symm hne)
          · exact hhead e' he'

-- =============================================================== maps

/-- A map: its entries, in the order of their keys. -/
structure SortedMap (κ ν : Type) [LinearOrder κ] where
  entries : List (κ × ν)
  sorted : entries.Pairwise fun a b => a.1 < b.1

namespace SortedMap

def empty : SortedMap κ ν := ⟨[], List.Pairwise.nil⟩

def get (m : SortedMap κ ν) (k : κ) : Option ν := m.entries.lookup k

def insert (m : SortedMap κ ν) (k : κ) (v : ν) : SortedMap κ ν where
  entries := insertEntry k v m.entries
  sorted := sorted_insertEntry k v m.sorted

/-- The map with these entries. Where a key stands twice, the first
counts. -/
def ofEntries : List (κ × ν) → SortedMap κ ν
  | [] => empty
  | e :: es => (ofEntries es).insert e.1 e.2

@[simp] theorem get_ofEntries (es : List (κ × ν)) (k : κ) :
    (ofEntries es).get k = es.lookup k := by
  induction es with
  | nil => rfl
  | cons e es ih =>
      rw [lookup_cons_ite, ← ih]
      exact lookup_insertEntry e.1 k e.2 (ofEntries es).entries

end SortedMap

-- =============================================================== loops

/-- Insert, entry by entry, those that `f` keeps. -/
def insertEach (f : κ → ν → Option μ) (es : List (κ × ν))
    (m : List (κ × μ)) : List (κ × μ) :=
  es.foldl (fun m e => match f e.1 e.2 with
    | some v => insertEntry e.1 v m
    | none => m) m

/-- A loop over a map changes the keys it keeps a value of, and no
others. -/
theorem SortedMap.lookup_insertEach (f : κ → ν → Option μ)
    (src : SortedMap κ ν) (m : List (κ × μ)) (k : κ) :
    (insertEach f src.entries m).lookup k
      = ((src.get k).bind (f k) <|> m.lookup k) := by
  obtain ⟨es, hsorted⟩ := src
  show (insertEach f es m).lookup k = ((es.lookup k).bind (f k) <|> m.lookup k)
  induction es generalizing m with
  | nil => rfl
  | cons e es ih =>
      obtain ⟨hhead, htail⟩ := List.pairwise_cons.1 hsorted
      have hstep : insertEach f (e :: es) m
          = insertEach f es (insertEach f [e] m) := rfl
      have hone : (insertEach f [e] m).lookup k
          = if k = e.1 then (f k e.2 <|> m.lookup k) else m.lookup k := by
        simp only [insertEach, List.foldl_cons, List.foldl_nil]
        by_cases hk : k = e.1
        · subst hk
          cases f e.1 e.2 with
          | none => simp
          | some v => simp
        · cases f e.1 e.2 with
          | none => simp [hk]
          | some v => simp [hk]
      rw [hstep, ih _ htail, hone, lookup_cons_ite]
      by_cases hk : k = e.1
      · -- the key stands nowhere else
        have hnone : es.lookup k = none := by
          rw [List.lookup_eq_none_iff]
          intro e' he'
          have hlt := hhead e' he'
          simp [hk, ne_of_lt hlt]
        simp [hk, hk ▸ hnone]
      · simp [hk]

end Autofork.Lib
