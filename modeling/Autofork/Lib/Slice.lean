/-
Slices of a keyed table: the rows that satisfy a predicate the key
decides, in storage order.

A statement that writes under keys outside a slice leaves it as it is,
and one that writes inside it does to the slice what it does to the
table. So tables that agree on a slice still do after the same
statement, and after statements elsewhere.
-/
import Autofork.Lib.Table

namespace Autofork.Lib.Table

variable {κ ρ : Type} {key : ρ → κ} {p : ρ → Bool}

/-- The key decides the predicate. -/
def Decides (key : ρ → κ) (p : ρ → Bool) : Prop :=
  ∀ x y, key x = key y → p x = p y

-- ================================================== rewriting in place

theorem select_deleteWhere (T : Table key) (q : ρ → Bool) :
    (T.deleteWhere q).select p = (T.select p).filter fun r => !q r := by
  rw [select, select, deleteWhere, List.filter_filter, List.filter_filter]
  exact List.filter_congr fun r _ => Bool.and_comm ..

/-- Deleting elsewhere. -/
theorem select_deleteWhere_other (T : Table key) {q : ρ → Bool}
    (h : ∀ r, p r = true → q r = false) :
    (T.deleteWhere q).select p = T.select p := by
  rw [select_deleteWhere, List.filter_eq_self]
  intro r hr
  rw [h r (List.mem_filter.1 hr).2]
  rfl

theorem select_updateWhere (T : Table key) {q : ρ → Bool} {f : ρ → ρ}
    (hf : ∀ r, key (f r) = key r) (hp : Decides key p) :
    (T.updateWhere q f hf).select p
      = (T.select p).map fun r => if q r then f r else r := by
  have hsame : ∀ r, p (if q r then f r else r) = p r := by
    intro r
    split
    · exact hp _ _ (hf r)
    · rfl
  rw [select, select, updateWhere, List.filter_map]
  exact congrArg _ (List.filter_congr fun r _ => hsame r)

/-- Updating elsewhere. -/
theorem select_updateWhere_other (T : Table key) {q : ρ → Bool} {f : ρ → ρ}
    (hf : ∀ r, key (f r) = key r) (hp : Decides key p)
    (h : ∀ r, p r = true → q r = false) :
    (T.updateWhere q f hf).select p = T.select p := by
  rw [select_updateWhere T hf hp]
  refine (List.map_congr_left fun r hr => ?_).trans (List.map_id _)
  rw [h r (List.mem_filter.1 hr).2]
  rfl

-- ============================================================ inserting

variable [DecidableEq κ]

omit [DecidableEq κ] in
theorem mem_keys_select (T : Table key) {r : ρ} (hp : Decides key p)
    (hr : p r = true) :
    key r ∈ T.rows.map key ↔ key r ∈ (T.select p).map key := by
  simp only [List.mem_map, select, List.mem_filter]
  constructor
  · rintro ⟨x, hx, hk⟩
    exact ⟨x, ⟨hx, (hp x r hk).trans hr⟩, hk⟩
  · rintro ⟨x, ⟨hx, -⟩, hk⟩
    exact ⟨x, hx, hk⟩

theorem select_insertOrIgnore (T : Table key) {r : ρ} (hp : Decides key p)
    (hr : p r = true) :
    (T.insertOrIgnore r).select p = if key r ∈ (T.select p).map key
      then T.select p else T.select p ++ [r] := by
  by_cases h : key r ∈ T.rows.map key
  · rw [insertOrIgnore_of_mem _ h, if_pos ((T.mem_keys_select hp hr).1 h)]
  · rw [if_neg (mt (T.mem_keys_select hp hr).2 h), select,
      rows_insertOrIgnore_of_notMem _ h, List.filter_append, select]
    simp [hr]

/-- Inserting elsewhere. -/
theorem select_insertOrIgnore_other (T : Table key) {r : ρ}
    (hr : p r = false) : (T.insertOrIgnore r).select p = T.select p := by
  by_cases h : key r ∈ T.rows.map key
  · rw [insertOrIgnore_of_mem _ h]
  · rw [select, rows_insertOrIgnore_of_notMem _ h, List.filter_append, select]
    simp [hr]

theorem select_insertOrReplace (T : Table key) {r : ρ} (hr : p r = true) :
    (T.insertOrReplace r).select p
      = ((T.select p).filter fun x => !decide (key x = key r)) ++ [r] := by
  rw [select, insertOrReplace, append, List.filter_append]
  rw [← select_deleteWhere, select]
  simp [hr]

/-- Replacing elsewhere. -/
theorem select_insertOrReplace_other (T : Table key) {r : ρ}
    (hp : Decides key p) (hr : p r = false) :
    (T.insertOrReplace r).select p = T.select p := by
  rw [select, insertOrReplace, append, List.filter_append]
  have hrest := T.select_deleteWhere_other (p := p)
    (q := fun x => decide (key x = key r)) fun x hx => by
      refine decide_eq_false fun hk => ?_
      rw [hp x r hk, hr] at hx
      cases hx
  rw [select] at hrest
  rw [hrest]
  simp [hr]

/-- What is stored under a key inside the slice. -/
theorem find?_select (T : Table key) {k : κ}
    (h : ∀ r, key r = k → p r = true) :
    T.find? k = (T.select p).find? fun r => decide (key r = k) := by
  rw [find?, select, List.find?_filter]
  refine congrArg (T.rows.find? ·) (funext fun r => ?_)
  by_cases hk : key r = k
  · simp [hk, h r hk]
  · simp [hk]

end Autofork.Lib.Table
