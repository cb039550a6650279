/-
Migrations that are interrupted.

What becomes of a database's schema does not depend on its rows
(`schema_migrate`), so it can be told from the few schemas there are:
those the first batches of the migration lead to (`stage`). And no
statement touches what a row has (`Keeps`).

# Where an interruption is fatal

The batches that create tables can be run again, those that add columns
cannot: the column exists. An attempt that commits one of these and is
interrupted before it writes the version leaves a database that no
attempt opens any more. `migrations_survive_iff` says that nothing else
does harm, and `columns_added_twice` is the shortest such course.
-/
import Autofork.Migrations

namespace Autofork

open Lib

-- ========================================================= rows are kept

/-- Every table is still there, and every row of it, with what it had:
the columns added since are filled. -/
def Keeps (db db' : Db) : Prop :=
  ∀ r ∈ db.tables.rows, ∃ r' ∈ db'.tables.rows, r'.name = r.name
    ∧ ∃ added : List Value, r'.rows = r.rows.map (· ++ added)

theorem Keeps.refl (db : Db) : Keeps db db :=
  fun r hr => ⟨r, hr, rfl, [], by simp⟩

theorem Keeps.trans {db db' db'' : Db} (h : Keeps db db')
    (h' : Keeps db' db'') : Keeps db db'' := by
  intro r hr
  obtain ⟨r', hr', hname, added, hrows⟩ := h r hr
  obtain ⟨r'', hr'', hname', added', hrows'⟩ := h' r' hr'
  refine ⟨r'', hr'', hname'.trans hname, added ++ added', ?_⟩
  rw [hrows', hrows, List.map_map]
  exact List.map_congr_left fun row _ => List.append_assoc ..

private theorem keeps_exec {db db' : Db} {stmt : Stmt}
    (h : db.exec stmt = some db') : Keeps db db' := by
  cases stmt with
  | createTable name columns constraints =>
      cases h
      intro r hr
      exact ⟨r, (Table.mem_insertOrIgnore _).2 (.inl hr), rfl, [], by simp⟩
  | createIndex index =>
      simp only [Db.exec] at h
      split at h
      · cases h
        exact .refl db
      · split at h
        · cases h
        · cases h
          exact fun r hr => ⟨r, hr, rfl, [], by simp⟩
  | addColumn table column =>
      simp only [Db.exec] at h
      split at h
      · cases h
      · split at h
        · cases h
        · cases h
          intro r hr
          by_cases hname : r.name = table
          · refine ⟨r.addColumn column, ?_, rfl, [column.fill], rfl⟩
            rw [Table.mem_updateWhere]
            exact .inl ⟨r, hr, by simpa using hname, rfl⟩
          · refine ⟨r, ?_, rfl, [], by simp⟩
            rw [Table.mem_updateWhere]
            exact .inr ⟨hr, by simpa using hname⟩

private theorem keeps_run {db db' : Db} {batch : Batch}
    (h : db.run batch = some db') : Keeps db db' := by
  induction batch generalizing db with
  | nil =>
      cases h
      exact .refl _
  | cons stmt batch ih =>
      obtain ⟨mid, hstmt, hrest⟩ := Option.bind_eq_some_iff.1 h
      exact (keeps_exec hstmt).trans (ih hrest)

theorem keeps_migrate (batches : List Batch) (db : Db) :
    Keeps db (migrate batches db).1 := by
  induction batches generalizing db with
  | nil => exact .refl db
  | cons batch batches ih =>
      unfold migrate
      split
      next db' hrun => exact (keeps_run hrun).trans (ih db')
      next => exact .refl db

theorem keeps_cut (db : Db) (n : Nat) : Keeps db (db.cut n) :=
  keeps_migrate _ db

theorem keeps_init (db : Db) : Keeps db db.init.1 := by
  have hkeeps := keeps_migrate (pendingBatches db.userVersion) db
  unfold Db.init
  split
  next db' hmig =>
    rw [hmig] at hkeeps
    exact hkeeps
  next db' hmig =>
    rw [hmig] at hkeeps
    exact hkeeps

-- ============================================ what becomes of the schema

/-- A statement, as far as the schema goes. -/
def Schema.exec (s : Schema) : Stmt → Option Schema
  | .createTable name columns constraints =>
      if name ∈ s.tables.map Layout.name then some s
      else some { s with tables := s.tables ++ [⟨name, columns, constraints⟩] }
  | .createIndex index =>
      if (s.indexes.find? fun i => decide (i.name = index.name)).isSome then some s
      else match s.tables.find? fun t => decide (t.name = index.table) with
        | none => none
        | some _ => some { s with indexes := s.indexes ++ [index] }
  | .addColumn table column =>
      match s.tables.find? fun t => decide (t.name = table) with
      | none => none
      | some t =>
          if hasColumn t.columns column.name then none
          else some { s with tables := s.tables.map fun t =>
            if t.name == table then { t with columns := t.columns ++ [column] }
            else t }

def Schema.run (s : Schema) (batch : Batch) : Option Schema :=
  batch.foldlM Schema.exec s

def Schema.migrate : List Batch → Schema → Schema × Bool
  | [], s => (s, true)
  | batch :: rest, s => match s.run batch with
    | some s => migrate rest s
    | none => (s, false)

private theorem schema_names (db : Db) :
    db.schema.tables.map Layout.name = db.tables.rows.map Relation.name := by
  rw [Db.schema, List.map_map]
  rfl

/-- Finding a table, and then forgetting its rows. -/
private theorem schema_find (db : Db) (name : String) :
    (db.schema.tables.find? fun t => decide (t.name = name))
      = (db.tables.find? name).map Relation.layout := by
  rw [Db.schema, List.find?_map]
  rfl

/-- What a statement makes of the schema does not depend on rows. -/
theorem schema_exec (db : Db) (stmt : Stmt) :
    (db.exec stmt).map Db.schema = db.schema.exec stmt := by
  cases stmt with
  | createTable name columns constraints =>
      simp only [Db.exec, Schema.exec, schema_names, Option.map_some]
      split
      next hname =>
        rw [Table.insertOrIgnore_of_mem _ hname]
      next hname =>
        simp only [Db.schema]
        rw [Table.rows_insertOrIgnore_of_notMem _ hname, List.map_append]
        rfl
  | createIndex index =>
      simp only [Db.exec, Schema.exec, schema_find]
      show _ = if (db.indexes.find? index.name).isSome then _ else _
      split
      next => rfl
      next hnew =>
        cases db.tables.find? index.table with
        | none => rfl
        | some r =>
            have hindex : index.name ∉ db.indexes.rows.map Index.name := by
              intro hmem
              obtain ⟨i, hi, hname⟩ := List.mem_map.1 hmem
              have hfound := (db.indexes.find?_eq_some_iff).2 ⟨hi, hname⟩
              rw [hfound] at hnew
              exact hnew rfl
            simp only [Option.map_some, Db.schema]
            rw [Table.rows_insertOrIgnore_of_notMem _ hindex]
  | addColumn table column =>
      simp only [Db.exec, Schema.exec, schema_find]
      cases db.tables.find? table with
      | none => rfl
      | some r =>
          simp only [Option.map_some, Relation.layout]
          split
          · rfl
          · simp only [Option.map_some, Db.schema, Table.updateWhere,
              List.map_map, Option.some.injEq, Schema.mk.injEq, and_true]
            refine List.map_congr_left fun r _ => ?_
            by_cases hname : r.name = table
            · simp [hname, Relation.layout, Relation.addColumn]
            · simp [hname, Relation.layout]

private theorem schema_run (db : Db) (batch : Batch) :
    (db.run batch).map Db.schema = db.schema.run batch := by
  induction batch generalizing db with
  | nil => rfl
  | cons stmt batch ih =>
      simp only [Db.run, Schema.run, List.foldlM_cons, ← schema_exec]
      cases db.exec stmt with
      | none => rfl
      | some mid => exact ih mid

theorem schema_migrate (batches : List Batch) (db : Db) :
    Schema.migrate batches db.schema
      = ((migrate batches db).1.schema, (migrate batches db).2) := by
  induction batches generalizing db with
  | nil => rfl
  | cons batch batches ih =>
      simp only [migrate, Schema.migrate, ← schema_run]
      cases db.run batch with
      | none => rfl
      | some db' => exact ih db'

private theorem version_run {db db' : Db} {batch : Batch}
    (h : db.run batch = some db') : db'.userVersion = db.userVersion := by
  induction batch generalizing db with
  | nil =>
      cases h
      rfl
  | cons stmt batch ih =>
      obtain ⟨mid, hstmt, hrest⟩ := Option.bind_eq_some_iff.1 h
      rw [ih hrest]
      cases stmt <;> simp only [Db.exec] at hstmt
      · cases hstmt
        rfl
      all_goals
        split at hstmt
        · cases hstmt <;> rfl
        · split at hstmt <;> cases hstmt
          rfl

private theorem version_migrate (batches : List Batch) (db : Db) :
    (migrate batches db).1.userVersion = db.userVersion := by
  induction batches generalizing db with
  | nil => rfl
  | cons batch batches ih =>
      unfold migrate
      split
      next db' hrun => rw [ih, version_run hrun]
      next => rfl

/-- Whether a database opens, and its schema then. -/
theorem init_eq (db : Db) :
    (db.init.1.schema, db.init.2)
        = Schema.migrate (pendingBatches db.userVersion) db.schema
      ∧ (db.init.2 = true → db.init.1.userVersion = schemaVersion) := by
  rw [schema_migrate, Db.init]
  split
  next db' hmig =>
    rw [hmig]
    exact ⟨rfl, fun _ => rfl⟩
  next db' hmig =>
    rw [hmig]
    exact ⟨rfl, fun h => by cases h⟩

-- ================================================== from stage to stage

/-- The schema the first `n` batches lead to. -/
def stage (n : Nat) : Schema :=
  (Schema.migrate ((pendingBatches 0).take n) ⟨[], []⟩).1

/-- A batch that adds columns. -/
def Batch.alters (batch : Batch) : Bool :=
  batch.any fun
    | .addColumn .. => true
    | _ => false

/-- A database of this version, at some stage from the version's own
on. -/
private structure AtStage (v n : Nat) (db : Db) : Prop where
  known : n ≤ 5
  above : v ≤ n
  version : db.userVersion = v
  schema : db.schema = stage n

/-- Some batch that adds columns has been run already, and stands before
the next attempts. -/
private def blocked (v n : Nat) : Bool :=
  ((pendingBatches v).take (n - v)).any Batch.alters

private theorem cut_stages : ∀ v ∈ List.range 6, ∀ n ∈ List.range 6,
    v ≤ n → ∀ c ∈ List.range 6,
      (Schema.migrate ((pendingBatches v).take c) (stage n)).1
        = if blocked v n then stage n else stage (min 5 (max n (v + c))) := by
  decide +kernel

private theorem init_stages : ∀ v ∈ List.range 6, ∀ n ∈ List.range 6, v ≤ n →
    Schema.migrate (pendingBatches v) (stage n)
      = if blocked v n then (stage n, false) else (stage 5, true) := by
  decide +kernel

private theorem blocked_max : ∀ v ∈ List.range 6, ∀ n ∈ List.range 6, v ≤ n →
    ∀ c ∈ List.range 6, blocked v (min 5 (max n (v + c)))
      = (blocked v n || ((pendingBatches v).take c).any Batch.alters) := by
  decide +kernel

/-- There are five batches at most. -/
private theorem take_pending (v c : Nat) :
    (pendingBatches v).take c = (pendingBatches v).take (min c 5) := by
  have hlen : (pendingBatches v).length ≤ 5 := by
    unfold pendingBatches
    split <;> split <;> split <;> split <;> split <;> decide
  rcases Nat.le_total c 5 with hc | hc
  · rw [min_eq_left hc]
  · rw [min_eq_right hc, List.take_of_length_le hlen,
      List.take_of_length_le (hlen.trans hc)]

/-- An interrupted attempt goes on to a later stage, or gets nowhere;
it leaves a column-adding batch behind if there was one before, or if
it has committed one. -/
private theorem AtStage.cut {v n : Nat} {db : Db} (h : AtStage v n db)
    (c : Nat) : ∃ n', AtStage v n' (db.cut c)
      ∧ blocked v n' = (blocked v n
        || ((pendingBatches v).take c).any Batch.alters) := by
  obtain ⟨hknown, habove, hversion, hschema⟩ := h
  have hv : v ∈ List.range 6 := List.mem_range.2 (by omega)
  have hn : n ∈ List.range 6 := List.mem_range.2 (by omega)
  have hc : min c 5 ∈ List.range 6 := List.mem_range.2 (by omega)
  have hcut : (db.cut c).schema = if blocked v n then stage n
      else stage (min 5 (max n (v + min c 5))) := by
    rw [← cut_stages v hv n hn habove _ hc, ← take_pending, ← hschema,
      schema_migrate, Db.cut, hversion]
  have hsame : (db.cut c).userVersion = v := by
    rw [Db.cut, version_migrate, hversion]
  rw [take_pending, ← blocked_max v hv n hn habove _ hc]
  cases hb : blocked v n with
  | true =>
      rw [hb, if_pos rfl] at hcut
      refine ⟨n, ⟨hknown, habove, hsame, hcut⟩, ?_⟩
      rw [blocked_max v hv n hn habove _ hc, hb]
      rfl
  | false =>
      rw [hb, if_neg Bool.false_ne_true] at hcut
      exact ⟨_, ⟨by omega, by omega, hsame, hcut⟩, rfl⟩

private theorem AtStage.cuts {v n : Nat} {db : Db} (h : AtStage v n db)
    (cs : List Nat) : ∃ n', AtStage v n' (cs.foldl Db.cut db)
      ∧ blocked v n' = (blocked v n
        || cs.any fun c => ((pendingBatches v).take c).any Batch.alters) := by
  induction cs generalizing n db with
  | nil => exact ⟨n, h, by simp⟩
  | cons c cs ih =>
      obtain ⟨n₁, h₁, hb₁⟩ := h.cut c
      obtain ⟨n₂, h₂, hb₂⟩ := ih h₁
      exact ⟨n₂, h₂, by rw [hb₂, hb₁, List.any_cons, Bool.or_assoc]⟩

private theorem AtStage.init {v n : Nat} {db : Db} (h : AtStage v n db) :
    (db.init.1.schema, db.init.2)
      = if blocked v n then (stage n, false) else (stage 5, true) := by
  obtain ⟨hknown, habove, hversion, hschema⟩ := h
  rw [(init_eq db).1, hversion, hschema]
  exact init_stages v (List.mem_range.2 (by omega)) n
    (List.mem_range.2 (by omega)) habove

-- ================================================== over all attempts

/-- A database of one of the schema's versions, with any rows. -/
structure AtVersion (v : Nat) (db : Db) : Prop where
  known : v ≤ schemaVersion
  version : db.userVersion = v
  schema : db.schema = stage v

/-- The database opens: with the schema of a new one, under the current
version, and with every row that `old` had. -/
structure OpensWhole (old db : Db) : Prop where
  opened : db.init.2 = true
  schema : db.init.1.schema = Db.empty.init.1.schema
  version : db.init.1.userVersion = schemaVersion
  rows : Keeps old db.init.1

/-- However often opening a database is interrupted: the next attempt
that is not opens it whole exactly when no interrupted one has committed
a batch that adds columns. -/
theorem migrations_survive_iff {v : Nat} {db : Db} (h : AtVersion v db)
    (cs : List Nat) :
    OpensWhole db (cs.foldl Db.cut db)
      ↔ ∀ c ∈ cs, ∀ batch ∈ (pendingBatches v).take c,
        batch.alters = false := by
  have hfresh : Db.empty.init.1.schema = stage 5 := by decide +kernel
  have hkeeps : ∀ (cs : List Nat) (db : Db), Keeps db (cs.foldl Db.cut db) := by
    intro cs
    induction cs with
    | nil => exact Keeps.refl
    | cons c cs ih => exact fun db => (keeps_cut db c).trans (ih _)
  obtain ⟨n, hn, hb⟩ := AtStage.cuts
    ⟨h.known, Nat.le_refl v, h.version, h.schema⟩ cs
  have hself : blocked v v = false := by simp [blocked]
  rw [hself, Bool.false_or] at hb
  have hinit := hn.init
  have hspared : (∀ c ∈ cs, ∀ batch ∈ (pendingBatches v).take c,
      batch.alters = false) ↔ blocked v n = false := by
    rw [hb]
    simp only [List.any_eq_false, Bool.not_eq_true]
  rw [hspared]
  constructor
  · intro hopens
    cases hblocked : blocked v n with
    | false => rfl
    | true =>
        rw [hblocked, if_pos rfl, Prod.mk.injEq] at hinit
        rw [hopens.opened] at hinit
        cases hinit.2
  · intro hfree
    rw [hfree, if_neg Bool.false_ne_true, Prod.mk.injEq] at hinit
    exact ⟨hinit.2, hinit.1.trans hfresh.symm, (init_eq _).2 hinit.2,
      (hkeeps cs db).trans (keeps_init _)⟩

/-- A new database, whose first two attempts are interrupted before
anything but the tables is there. -/
theorem migrations_survive_new :
    OpensWhole Db.empty ([1, 0].foldl Db.cut Db.empty) :=
  (migrations_survive_iff (v := 0) ⟨by decide, rfl, by decide +kernel⟩ [1, 0]).2
    (by decide)

/-- A new database, opened for the first time: the attempt is killed
between the second batch and the version, and no other succeeds. -/
theorem columns_added_twice :
    ¬∀ (v : Nat) (db : Db) (cs : List Nat), AtVersion v db →
      OpensWhole db (cs.foldl Db.cut db) := by
  intro h
  have hopens := (h 0 Db.empty [2] ⟨by decide, rfl, by decide +kernel⟩).opened
  have hfails : (([2] : List Nat).foldl Db.cut Db.empty).init.2 = false := by
    decide +kernel
  rw [hfails] at hopens
  cases hopens

end Autofork
