/-
The state database as the store finds it on disk: its tables with their
rows, its indexes and its `user_version`; the five migration batches;
and what opening it does.

A batch is one transaction and takes effect entirely or not at all. The
version is written once, after the last batch. So an attempt to open
that is interrupted leaves the batches it has committed, under the
version it found (`Db.cut`).
-/
import Mathlib.Data.Option.Basic
import Autofork.Lib.Table

namespace Autofork

open Lib

-- ============================================================ database

/-- A stored value. Floats go by their bits. -/
inductive Value
  | null
  | integer (n : Int)
  | real (bits : UInt64)
  | text (s : String)
  deriving DecidableEq, Repr

/-- A column as declared, and the value rows that were there before it
read in it. -/
structure Column where
  name : String
  decl : String
  fill : Value := .null
  deriving DecidableEq, Repr

/-- A table: each row has a value for each column. -/
structure Relation where
  name : String
  columns : List Column
  constraints : List String
  rows : List (List Value)
  wide : ∀ r ∈ rows, r.length = columns.length

structure Index where
  name : String
  table : String
  columns : List String
  deriving DecidableEq, Repr

structure Db where
  tables : Table Relation.name
  indexes : Table Index.name
  userVersion : Nat

/-- A database file just created. -/
def Db.empty : Db := ⟨.empty, .empty, 0⟩

/-- A table without its rows. -/
structure Layout where
  name : String
  columns : List Column
  constraints : List String
  deriving DecidableEq, Repr

structure Schema where
  tables : List Layout
  indexes : List Index
  deriving DecidableEq, Repr

def Relation.layout (r : Relation) : Layout := ⟨r.name, r.columns, r.constraints⟩

def Db.schema (db : Db) : Schema :=
  ⟨db.tables.rows.map Relation.layout, db.indexes.rows⟩

-- ========================================================== statements

inductive Stmt
  /-- `CREATE TABLE IF NOT EXISTS`. -/
  | createTable (name : String) (columns : List Column)
      (constraints : List String)
  /-- `CREATE INDEX IF NOT EXISTS`. -/
  | createIndex (index : Index)
  /-- `ALTER TABLE … ADD COLUMN`. -/
  | addColumn (table : String) (column : Column)
  deriving DecidableEq, Repr

/-- Append a column; the rows there are read as filled. -/
def Relation.addColumn (r : Relation) (column : Column) : Relation where
  name := r.name
  columns := r.columns ++ [column]
  constraints := r.constraints
  rows := r.rows.map (· ++ [column.fill])
  wide := by
    intro row hrow
    obtain ⟨old, hold, rfl⟩ := List.mem_map.1 hrow
    rw [List.length_append, List.length_append, r.wide old hold]
    rfl

theorem Relation.addColumn_name (column : Column) (r : Relation) :
    (r.addColumn column).name = r.name := rfl

/-- Whether a column of this name exists. -/
def hasColumn (columns : List Column) (name : String) : Bool :=
  columns.any fun c => c.name == name

/-- A statement: none when it is an error. -/
def Db.exec (db : Db) : Stmt → Option Db
  | .createTable name columns constraints =>
      some { db with
        tables := db.tables.insertOrIgnore
          ⟨name, columns, constraints, [], by simp⟩ }
  | .createIndex index =>
      if (db.indexes.find? index.name).isSome then some db
      else match db.tables.find? index.table with
        | none => none
        | some _ =>
            some { db with indexes := db.indexes.insertOrIgnore index }
  | .addColumn table column =>
      match db.tables.find? table with
      | none => none
      | some r =>
          if hasColumn r.columns column.name then none
          else some { db with
            tables := db.tables.updateWhere (fun r => r.name == table)
              (fun r => r.addColumn column) (Relation.addColumn_name column) }

-- ============================================================= batches

abbrev Batch := List Stmt

private def col (name decl : String) : Column := { name, decl }

def createTables : Batch :=
  [.createTable "sessions"
      [col "session_id" "TEXT PRIMARY KEY",
        col "project_root" "TEXT NOT NULL",
        col "cwd" "TEXT NOT NULL",
        col "transcript_path" "TEXT",
        col "status" "TEXT NOT NULL CHECK(status IN ('open','closed'))",
        col "last_activity" "INTEGER NOT NULL",
        col "forks_ran_at" "INTEGER",
        col "transcript_offset" "INTEGER NOT NULL DEFAULT 0",
        col "prompt_tokens" "INTEGER",
        col "model" "TEXT",
        col "created_at" "INTEGER NOT NULL"] [],
    .createTable "fork_roster"
      [col "session_id" "TEXT NOT NULL",
        col "fork_name" "TEXT NOT NULL",
        col "fork_path" "TEXT NOT NULL",
        col "queued_at" "INTEGER NOT NULL",
        col "ran_at" "INTEGER"]
      ["PRIMARY KEY (session_id, fork_name)"],
    .createTable "fork_fires"
      [col "session_id" "TEXT NOT NULL",
        col "fork_name" "TEXT NOT NULL",
        col "trigger_label" "TEXT NOT NULL",
        col "fired_at" "INTEGER NOT NULL"]
      ["PRIMARY KEY (session_id, fork_name, trigger_label)"],
    .createTable "fork_runs"
      [col "id" "INTEGER PRIMARY KEY AUTOINCREMENT",
        col "session_id" "TEXT NOT NULL",
        col "fork_name" "TEXT NOT NULL",
        col "trigger_label" "TEXT NOT NULL",
        col "state" "TEXT NOT NULL",
        col "started_at" "INTEGER NOT NULL",
        col "finished_at" "INTEGER",
        col "fork_session_id" "TEXT",
        col "cost_usd" "REAL",
        col "error" "TEXT"] [],
    .createTable "reports"
      [col "id" "INTEGER PRIMARY KEY AUTOINCREMENT",
        col "run_id" "INTEGER",
        col "origin_session_id" "TEXT NOT NULL",
        col "project_root" "TEXT NOT NULL",
        col "fork_name" "TEXT NOT NULL",
        col "trigger_label" "TEXT NOT NULL",
        col "kind" "TEXT NOT NULL CHECK(kind IN ('started','response'))",
        col "body" "TEXT NOT NULL",
        col "created_at" "INTEGER NOT NULL",
        col "delivered_at" "INTEGER",
        col "delivered_to_session" "TEXT"] [],
    .createIndex ⟨"idx_reports_pending", "reports",
      ["project_root", "delivered_at"]⟩,
    .createIndex ⟨"idx_runs_session", "fork_runs", ["session_id"]⟩]

def addTagFilters : Batch :=
  [.addColumn "sessions" (col "enable_tags" "TEXT"),
    .addColumn "sessions" (col "disable_tags" "TEXT")]

def addRunTags : Batch :=
  [.addColumn "fork_runs" (col "tags" "TEXT")]

/-- The pause epoch and the pause baseline. -/
def addPauses : Batch :=
  [.addColumn "sessions"
      { name := "pause_epoch", decl := "INTEGER NOT NULL DEFAULT 0"
        fill := .integer 0 },
    .addColumn "sessions" (col "pause_started_at" "INTEGER")]

/-- Fork spawns and held dependents. -/
def createSpawns : Batch :=
  [.createTable "fork_spawns"
      [col "session_id" "TEXT NOT NULL",
        col "tool_use_id" "TEXT NOT NULL",
        col "task_id" "TEXT",
        col "fork_name" "TEXT",
        col "status" "TEXT NOT NULL DEFAULT 'spawned'",
        col "spawned_at" "INTEGER NOT NULL",
        col "terminal_at" "INTEGER"]
      ["PRIMARY KEY (session_id, tool_use_id)"],
    .createTable "pending_deps"
      [col "session_id" "TEXT NOT NULL",
        col "fork_name" "TEXT NOT NULL",
        col "fork_path" "TEXT NOT NULL",
        col "trigger_label" "TEXT NOT NULL",
        col "overlap" "INTEGER NOT NULL",
        col "preds" "TEXT NOT NULL",
        col "created_at" "INTEGER NOT NULL"]
      ["PRIMARY KEY (session_id, fork_name)"]]

def schemaVersion : Nat := 5

/-- The batches a database of this version still needs. -/
def pendingBatches (version : Nat) : List Batch :=
  (if version < 1 then [createTables] else [])
    ++ (if version < 2 then [addTagFilters] else [])
    ++ (if version < 3 then [addRunTags] else [])
    ++ (if version < 4 then [addPauses] else [])
    ++ if version < 5 then [createSpawns] else []

-- ============================================================= opening

/-- One transaction: all of the batch, or an error and none of it. -/
def Db.run (db : Db) (batch : Batch) : Option Db := batch.foldlM Db.exec db

/-- Run batches in turn, up to the first error; also whether there was
none. -/
def migrate : List Batch → Db → Db × Bool
  | [], db => (db, true)
  | batch :: rest, db => match db.run batch with
    | some db => migrate rest db
    | none => (db, false)

/-- Open the store: what is on disk then, and whether it opened. -/
def Db.init (db : Db) : Db × Bool :=
  match migrate (pendingBatches db.userVersion) db with
  | (db, true) => ({ db with userVersion := schemaVersion }, true)
  | (db, false) => (db, false)

/-- An attempt to open that is interrupted before it has committed more
than `n` batches. -/
def Db.cut (db : Db) (n : Nat) : Db :=
  (migrate ((pendingBatches db.userVersion).take n) db).1

end Autofork
