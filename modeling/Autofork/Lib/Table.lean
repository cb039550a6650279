/-
Keyed tables: what a SQL table with a primary key is to the code that
uses it, as a list of rows whose keys are pairwise distinct. The
distinctness is a field, so a table that violates its primary key
cannot be built, and each statement form below returns a table.

The statement forms are the ones a row store is driven by:

- `insertOrIgnore`: `INSERT OR IGNORE`, also telling whether a row was
  written;
- `insertOrReplace`: `INSERT OR REPLACE` (the old row goes, the new one
  is appended);
- `insertOrUpdate`: `INSERT … ON CONFLICT (key) DO UPDATE`;
- `updateWhere`: `UPDATE … WHERE`, for updates that leave the key alone;
- `deleteWhere`: `DELETE … WHERE`;
- `select` and `orderBy`: `SELECT … WHERE … ORDER BY`.

One membership lemma per form is the whole interface the proofs use.
-/
import Mathlib.Data.List.Nodup
import Mathlib.Data.List.Sort

namespace Autofork.Lib

/-- Rows under a key, the keys pairwise distinct. -/
structure Table {κ ρ : Type} (key : ρ → κ) where
  rows : List ρ
  keyed : (rows.map key).Nodup

namespace Table

variable {κ ρ : Type} {key : ρ → κ}

-- ============================================ reading and rewriting

/-- The table with no rows. -/
def empty : Table key := ⟨[], List.nodup_nil⟩

/-- `SELECT … WHERE p`, in storage order. -/
def select (T : Table key) (p : ρ → Bool) : List ρ := T.rows.filter p

/-- `SELECT … WHERE p ORDER BY le`. -/
def orderBy (T : Table key) (p : ρ → Bool) (le : ρ → ρ → Bool) : List ρ :=
  (T.rows.filter p).insertionSort fun a b => le a b = true

/-- `DELETE … WHERE p`. -/
def deleteWhere (T : Table key) (p : ρ → Bool) : Table key where
  rows := T.rows.filter fun r => !p r
  keyed := (List.Sublist.map key List.filter_sublist).nodup T.keyed

/-- `UPDATE … SET r := f r WHERE p`, for an `f` that keeps the key. -/
def updateWhere (T : Table key) (p : ρ → Bool) (f : ρ → ρ)
    (hf : ∀ r, key (f r) = key r) : Table key where
  rows := T.rows.map fun r => if p r then f r else r
  keyed := by
    have hkeys : (T.rows.map fun r => if p r then f r else r).map key
        = T.rows.map key := by
      rw [List.map_map]
      refine List.map_congr_left fun r _ => ?_
      show key (if p r then f r else r) = key r
      split
      · exact hf r
      · rfl
    rw [hkeys]
    exact T.keyed

/-- Append a row whose key is new. -/
def append (T : Table key) (r : ρ) (h : key r ∉ T.rows.map key) :
    Table key where
  rows := T.rows ++ [r]
  keyed := by
    rw [List.map_append, List.map_singleton, List.nodup_append]
    refine ⟨T.keyed, List.nodup_singleton _, ?_⟩
    intro a ha b hb hab
    rw [List.mem_singleton] at hb
    exact h (hb ▸ hab ▸ ha)

/-- A key names at most one row. -/
theorem eq_of_key_eq (T : Table key) {x y : ρ} (hx : x ∈ T.rows)
    (hy : y ∈ T.rows) (hk : key x = key y) : x = y :=
  List.inj_on_of_nodup_map T.keyed hx hy hk

@[simp] theorem rows_empty : (empty : Table key).rows = [] := rfl

@[simp] theorem mem_select (T : Table key) {p : ρ → Bool} {x : ρ} :
    x ∈ T.select p ↔ x ∈ T.rows ∧ p x = true := List.mem_filter

@[simp] theorem mem_orderBy (T : Table key) {p : ρ → Bool}
    {le : ρ → ρ → Bool} {x : ρ} :
    x ∈ T.orderBy p le ↔ x ∈ T.rows ∧ p x = true := by
  rw [orderBy, List.mem_insertionSort, List.mem_filter]

/-- What `ORDER BY` returns has each key once. -/
theorem nodup_orderBy (T : Table key) (p : ρ → Bool)
    (le : ρ → ρ → Bool) : ((T.orderBy p le).map key).Nodup := by
  have hp := List.perm_insertionSort (fun a b => le a b = true)
    (T.rows.filter p)
  rw [orderBy, (hp.map key).nodup_iff]
  exact (List.Sublist.map key List.filter_sublist).nodup T.keyed

@[simp] theorem mem_deleteWhere (T : Table key) {p : ρ → Bool} {x : ρ} :
    x ∈ (T.deleteWhere p).rows ↔ x ∈ T.rows ∧ p x = false := by
  simp [deleteWhere, List.mem_filter]

theorem mem_updateWhere (T : Table key) {p : ρ → Bool} {f : ρ → ρ}
    {hf : ∀ r, key (f r) = key r} {x : ρ} :
    x ∈ (T.updateWhere p f hf).rows
      ↔ (∃ y ∈ T.rows, p y = true ∧ x = f y)
        ∨ (x ∈ T.rows ∧ p x = false) := by
  simp only [updateWhere, List.mem_map]
  constructor
  · rintro ⟨y, hy, rfl⟩
    cases hp : p y with
    | true => exact .inl ⟨y, hy, hp, by simp⟩
    | false => exact .inr ⟨by simpa using hy, by simpa using hp⟩
  · rintro (⟨y, hy, hp, rfl⟩ | ⟨hx, hp⟩)
    · exact ⟨y, hy, by simp [hp]⟩
    · exact ⟨x, hx, by simp [hp]⟩

@[simp] theorem mem_append (T : Table key) {r x : ρ}
    {h : key r ∉ T.rows.map key} :
    x ∈ (T.append r h).rows ↔ x ∈ T.rows ∨ x = r := by
  simp [append]

-- ======================================= statements that read the key

variable [DecidableEq κ]

/-- The row stored under a key. -/
def find? (T : Table key) (k : κ) : Option ρ :=
  T.rows.find? fun r => decide (key r = k)

/-- `INSERT OR IGNORE`: a row under a taken key changes nothing. -/
def insertOrIgnore (T : Table key) (r : ρ) : Table key :=
  if h : key r ∈ T.rows.map key then T else T.append r h

/-- `INSERT OR REPLACE`: the row under the key, if any, goes first. -/
def insertOrReplace (T : Table key) (r : ρ) : Table key :=
  (T.deleteWhere fun x => decide (key x = key r)).append r (by
    intro h
    obtain ⟨x, hx, hk⟩ := List.mem_map.1 h
    simp only [deleteWhere, List.mem_filter] at hx
    simp [hk] at hx)

/-- `INSERT … ON CONFLICT DO UPDATE SET r := f r`. -/
def insertOrUpdate (T : Table key) (r : ρ) (f : ρ → ρ)
    (hf : ∀ x, key (f x) = key x) : Table key :=
  if h : key r ∈ T.rows.map key then
    T.updateWhere (fun x => decide (key x = key r)) f hf
  else T.append r h

theorem find?_eq_some_iff (T : Table key) {k : κ} {r : ρ} :
    T.find? k = some r ↔ r ∈ T.rows ∧ key r = k := by
  unfold find?
  constructor
  · intro h
    exact ⟨List.mem_of_find?_eq_some h, by simpa using List.find?_some h⟩
  · rintro ⟨hr, rfl⟩
    cases hf : T.rows.find? fun x => decide (key x = key r) with
    | none =>
        have := List.find?_eq_none.1 hf r hr
        simp at this
    | some r' =>
        have hk : key r' = key r := by simpa using List.find?_some hf
        rw [T.eq_of_key_eq (List.mem_of_find?_eq_some hf) hr hk]

theorem find?_eq_none_iff (T : Table key) {k : κ} :
    T.find? k = none ↔ ∀ r ∈ T.rows, key r ≠ k := by
  simp [find?, List.find?_eq_none]

@[simp] theorem find?_empty (k : κ) : (empty : Table key).find? k = none :=
  rfl

theorem mem_insertOrIgnore (T : Table key) {r x : ρ} :
    x ∈ (T.insertOrIgnore r).rows
      ↔ x ∈ T.rows ∨ (x = r ∧ ∀ y ∈ T.rows, key y ≠ key r) := by
  unfold insertOrIgnore
  split
  case isTrue h =>
    obtain ⟨y, hy, hk⟩ := List.mem_map.1 h
    constructor
    · exact .inl
    · rintro (hx | ⟨-, hno⟩)
      · exact hx
      · exact absurd hk (hno y hy)
  case isFalse h =>
    have hno : ∀ y ∈ T.rows, key y ≠ key r := fun y hy hk =>
      h (List.mem_map.2 ⟨y, hy, hk⟩)
    rw [mem_append]
    exact ⟨fun hx => hx.imp_right fun he => ⟨he, hno⟩,
      fun hx => hx.imp_right And.left⟩

theorem insertOrIgnore_of_mem (T : Table key) {r : ρ}
    (h : key r ∈ T.rows.map key) : T.insertOrIgnore r = T := dif_pos h

theorem rows_insertOrIgnore_of_notMem (T : Table key) {r : ρ}
    (h : key r ∉ T.rows.map key) :
    (T.insertOrIgnore r).rows = T.rows ++ [r] := by
  rw [insertOrIgnore, dif_neg h]
  rfl

theorem mem_insertOrReplace (T : Table key) {r x : ρ} :
    x ∈ (T.insertOrReplace r).rows
      ↔ (x ∈ T.rows ∧ key x ≠ key r) ∨ x = r := by
  rw [insertOrReplace, mem_append, mem_deleteWhere, decide_eq_false_iff_not]

theorem mem_insertOrUpdate (T : Table key) {r x : ρ} {f : ρ → ρ}
    {hf : ∀ y, key (f y) = key y} :
    x ∈ (T.insertOrUpdate r f hf).rows
      ↔ (∃ y ∈ T.rows, key y = key r ∧ x = f y)
        ∨ (x ∈ T.rows ∧ key x ≠ key r)
        ∨ (x = r ∧ ∀ y ∈ T.rows, key y ≠ key r) := by
  unfold insertOrUpdate
  split
  case isTrue h =>
    obtain ⟨y, hy, hk⟩ := List.mem_map.1 h
    rw [mem_updateWhere]
    simp only [decide_eq_true_eq, decide_eq_false_iff_not]
    constructor
    · exact fun hx => hx.imp_right .inl
    · rintro (hx | hx | ⟨-, hno⟩)
      · exact .inl hx
      · exact .inr hx
      · exact absurd hk (hno y hy)
  case isFalse h =>
    have hno : ∀ y ∈ T.rows, key y ≠ key r := fun y hy hk =>
      h (List.mem_map.2 ⟨y, hy, hk⟩)
    rw [mem_append]
    constructor
    · rintro (hx | hx)
      · exact .inr (.inl ⟨hx, hno x hx⟩)
      · exact .inr (.inr ⟨hx, hno⟩)
    · rintro (⟨y, hy, hk, -⟩ | ⟨hx, -⟩ | ⟨hx, -⟩)
      · exact absurd hk (hno y hy)
      · exact .inl hx
      · exact .inr hx

/-- An update rewrites what is stored under a key, or leaves it. -/
theorem find?_updateWhere (T : Table key) {p : ρ → Bool} {f : ρ → ρ}
    {hf : ∀ r, key (f r) = key r} {k : κ} :
    (T.updateWhere p f hf).find? k
      = (T.find? k).map fun r => if p r then f r else r := by
  cases h : T.find? k with
  | none =>
      rw [find?_eq_none_iff] at h
      rw [Option.map_none, find?_eq_none_iff]
      intro r hr
      rcases T.mem_updateWhere.1 hr with ⟨y, hy, -, rfl⟩ | ⟨hr, -⟩
      · exact hf y ▸ h y hy
      · exact h r hr
  | some r =>
      obtain ⟨hr, rfl⟩ := T.find?_eq_some_iff.1 h
      rw [Option.map_some, find?_eq_some_iff]
      refine ⟨List.mem_map_of_mem hr, ?_⟩
      split
      · exact hf r
      · rfl

/-- What is stored under a key stays. -/
theorem find?_insertOrIgnore (T : Table key) {r : ρ} {k : κ} :
    (T.insertOrIgnore r).find? k
      = (T.find? k <|> if key r = k then some r else none) := by
  cases h : T.find? k with
  | some x =>
      obtain ⟨hx, hk⟩ := T.find?_eq_some_iff.1 h
      exact (find?_eq_some_iff _).2 ⟨(mem_insertOrIgnore _).2 (.inl hx), hk⟩
  | none =>
      rw [find?_eq_none_iff] at h
      split
      next hk =>
        refine (find?_eq_some_iff _).2 ⟨?_, hk⟩
        exact (mem_insertOrIgnore _).2 (.inr ⟨rfl, fun y hy => hk ▸ h y hy⟩)
      next hk =>
        refine (find?_eq_none_iff _).2 fun x hx => ?_
        rcases (mem_insertOrIgnore _).1 hx with hx | ⟨rfl, -⟩
        · exact h x hx
        · exact hk

theorem find?_insertOrUpdate (T : Table key) {r : ρ} {f : ρ → ρ}
    {hf : ∀ x, key (f x) = key x} {k : κ} :
    (T.insertOrUpdate r f hf).find? k
      = if key r = k then some ((T.find? k).elim r f) else T.find? k := by
  split
  next hk =>
    subst hk
    rw [find?_eq_some_iff, mem_insertOrUpdate]
    cases h : T.find? (key r) with
    | none =>
        rw [find?_eq_none_iff] at h
        exact ⟨.inr (.inr ⟨rfl, h⟩), rfl⟩
    | some x =>
        obtain ⟨hx, hkey⟩ := T.find?_eq_some_iff.1 h
        exact ⟨.inl ⟨x, hx, hkey, rfl⟩, (hf x).trans hkey⟩
  next hk =>
    have hsame : ∀ x, x ∈ (T.insertOrUpdate r f hf).rows ∧ key x = k
        ↔ x ∈ T.rows ∧ key x = k := by
      refine fun x => and_congr_left fun hx => ?_
      rw [mem_insertOrUpdate]
      constructor
      · rintro (⟨y, -, hy, rfl⟩ | ⟨hx, -⟩ | ⟨rfl, -⟩)
        · exact absurd (hy.symm.trans ((hf y).symm.trans hx)) hk
        · exact hx
        · exact absurd hx hk
      · exact fun h => .inr (.inl ⟨h, fun he => hk (he.symm.trans hx)⟩)
    refine Option.ext fun x => ?_
    rw [find?_eq_some_iff, find?_eq_some_iff, hsame]

end Table

end Autofork.Lib
