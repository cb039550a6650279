/-
The daemon's state store: one keyed table per SQL table, one function
per statement. Timestamps are unix seconds.

- roster: queued once per session and fork; running never dequeues;
  cleared when the session closes.
- fires: the latches. A row per session, fork and latch key.
- runs: the wakes issued, kept for the per-tag throttles.
- spawns: fork spawns seen in a session's transcript, by which
  completion notifications are recognized.
- pending: dependents of a wake held back until their predecessors
  finish.

Values are the raw columns: tag lists and predecessor lists are stored
comma-joined and split on the way out. A row of `pending` also has a
field no column stands for, `issue`, which numbers the issuance that
wrote it; nothing reads it back but the statements about the code.
-/
import Autofork.Hook
import Autofork.Lib.Table

namespace Autofork

open Lib

-- ================================================================ rows

inductive SessionStatus
  | «open»
  | closed
  deriving DecidableEq, Repr

/-- A tracked session, as code reads it. -/
structure SessionRow where
  sessionId : String
  projectRoot : Path
  cwd : Path
  transcriptPath : Option Path
  status : SessionStatus
  lastActivity : Int
  transcriptOffset : Nat
  promptTokens : Option Nat
  model : Option String
  createdAt : Int
  enableTags : Option (List String)
  disableTags : Option (List String)
  /-- Advances only on genuine user activity. -/
  pauseEpoch : Int
  /-- The Stop that began the current pause. -/
  pauseStartedAt : Option Int
  deriving DecidableEq, Repr

/-- A row of `sessions`. -/
structure SessionRec where
  sessionId : String
  projectRoot : Path
  cwd : Path
  transcriptPath : Option Path
  status : SessionStatus
  lastActivity : Int
  transcriptOffset : Nat
  promptTokens : Option Nat
  model : Option String
  createdAt : Int
  enableTags : Option String
  disableTags : Option String
  pauseEpoch : Int
  pauseStartedAt : Option Int
  deriving DecidableEq, Repr

/-- A rostered fork of a session. -/
structure RosterEntry where
  sessionId : String
  forkName : String
  forkPath : Path
  queuedAt : Int
  ranAt : Option Int
  deriving DecidableEq, Repr

/-- A latch. -/
structure FireRec where
  sessionId : String
  forkName : String
  triggerLabel : String
  firedAt : Int
  deriving DecidableEq, Repr

/-- An issued wake of one fork. -/
structure RunRec where
  id : Nat
  sessionId : String
  forkName : String
  triggerLabel : String
  startedAt : Int
  tags : Option String
  deriving DecidableEq, Repr

/-- The last number given to a run. No run is ever deleted, so it is the
highest there is. -/
def lastRunId (runs : List RunRec) : Nat :=
  runs.foldl (fun n run => max n run.id) 0

theorem lastRunId_concat (runs : List RunRec) (run : RunRec) :
    lastRunId (runs ++ [run]) = max (lastRunId runs) run.id := by
  rw [lastRunId, List.foldl_append]
  rfl

/-- A fork spawn seen in a transcript. -/
structure SpawnRec where
  sessionId : String
  toolUseId : String
  taskId : Option String
  forkName : Option String
  status : String
  spawnedAt : Int
  terminalAt : Option Int
  deriving DecidableEq, Repr

/-- A row of `pending_deps`. -/
structure PendingRec where
  sessionId : String
  forkName : String
  forkPath : Path
  triggerLabel : String
  overlap : Bool
  preds : String
  createdAt : Int
  issue : Nat
  deriving DecidableEq, Repr

/-- A dependent held back, as code reads it. -/
structure PendingDep where
  forkName : String
  forkPath : Path
  triggerLabel : String
  overlap : Bool
  preds : List String
  createdAt : Int
  issue : Nat
  deriving DecidableEq, Repr

def RosterEntry.key (r : RosterEntry) : String × String :=
  (r.sessionId, r.forkName)

def FireRec.key (r : FireRec) : String × String × String :=
  (r.sessionId, r.forkName, r.triggerLabel)

def SpawnRec.key (r : SpawnRec) : String × String :=
  (r.sessionId, r.toolUseId)

def PendingRec.key (r : PendingRec) : String × String :=
  (r.sessionId, r.forkName)

structure Store where
  sessions : Table SessionRec.sessionId
  roster : Table RosterEntry.key
  fires : Table FireRec.key
  runs : List RunRec
  spawns : Table SpawnRec.key
  pending : Table PendingRec.key

/-- What code reads of a row: the tag filters split. -/
def SessionRec.toRow (r : SessionRec) : SessionRow where
  sessionId := r.sessionId
  projectRoot := r.projectRoot
  cwd := r.cwd
  transcriptPath := r.transcriptPath
  status := r.status
  lastActivity := r.lastActivity
  transcriptOffset := r.transcriptOffset
  promptTokens := r.promptTokens
  model := r.model
  createdAt := r.createdAt
  enableTags := r.enableTags.map splitComma
  disableTags := r.disableTags.map splitComma
  pauseEpoch := r.pauseEpoch
  pauseStartedAt := r.pauseStartedAt

/-- What code reads of a held dependent: the predecessors split. -/
def PendingRec.toDep (r : PendingRec) : PendingDep where
  forkName := r.forkName
  forkPath := r.forkPath
  triggerLabel := r.triggerLabel
  overlap := r.overlap
  preds := splitComma r.preds
  createdAt := r.createdAt
  issue := r.issue

namespace Store

/-- A store just created. -/
def openInMemory : Store :=
  ⟨.empty, .empty, .empty, [], .empty, .empty⟩

-- ============================================================ sessions

/-- Register or re-touch a session as open. The working directory is
pinned to the first event's; the tag filters follow the latest. -/
def upsertSession (s : Store) (ev : Event) (now : Int) : Store :=
  let enableTags := ev.enableTags.map (join ",")
  let disableTags := ev.disableTags.map (join ",")
  { s with
    sessions := s.sessions.insertOrUpdate
      { sessionId := ev.sessionId
        projectRoot := ev.projectRoot
        cwd := ev.cwd
        transcriptPath := ev.transcriptPath
        status := .open
        lastActivity := now
        transcriptOffset := 0
        promptTokens := none
        model := ev.model
        createdAt := now
        enableTags
        disableTags
        pauseEpoch := 0
        pauseStartedAt := none }
      (fun r => { r with
        projectRoot := ev.projectRoot
        transcriptPath := ev.transcriptPath <|> r.transcriptPath
        model := ev.model <|> r.model
        enableTags
        disableTags
        status := .open
        lastActivity := now })
      fun _ => rfl }

def getSession (s : Store) (sessionId : String) : Option SessionRow :=
  (s.sessions.find? sessionId).map SessionRec.toRow

theorem sessionId_of_getSession {s : Store} {a : String} {session : SessionRow}
    (h : s.getSession a = some session) : session.sessionId = a := by
  obtain ⟨r, hr, rfl⟩ := Option.map_eq_some_iff.1 h
  exact (s.sessions.find?_eq_some_iff.1 hr).2

/-- `UPDATE sessions … WHERE session_id = ?`. -/
def updateSession (s : Store) (sessionId : String)
    (f : SessionRec → SessionRec)
    (hf : ∀ r, (f r).sessionId = r.sessionId) : Store :=
  { s with sessions :=
      s.sessions.updateWhere (fun r => r.sessionId == sessionId) f hf }

/-- Genuine activity begins a new pause. -/
def bumpPauseEpoch (s : Store) (sessionId : String) : Store :=
  s.updateSession sessionId
    (fun r => { r with pauseEpoch := r.pauseEpoch + 1, pauseStartedAt := none })
    fun _ => rfl

/-- The first Stop of a pause sets its baseline. -/
def setPauseStartedAtIfUnset (s : Store) (sessionId : String) (now : Int) :
    Store :=
  s.updateSession sessionId
    (fun r => { r with pauseStartedAt := r.pauseStartedAt <|> some now })
    fun _ => rfl

/-- The open sessions, most recently active first. -/
def listOpenSessions (s : Store) : List SessionRow :=
  (s.sessions.orderBy (fun r => r.status == .open)
    fun a b => decide (b.lastActivity ≤ a.lastActivity)).map SessionRec.toRow

def setLastActivity (s : Store) (sessionId : String) (now : Int) : Store :=
  s.updateSession sessionId (fun r => { r with lastActivity := now })
    fun _ => rfl

def setTranscriptGauge (s : Store) (sessionId : String) (offset : Nat)
    (promptTokens : Option Nat) : Store :=
  s.updateSession sessionId
    (fun r => { r with
      transcriptOffset := offset
      promptTokens := promptTokens <|> r.promptTokens })
    fun _ => rfl

/-- Close a session and clear its roster, latches, spawns and pending
dependents. -/
def closeSession (s : Store) (sessionId : String) : Store :=
  { s.updateSession sessionId (fun r => { r with status := .closed })
      fun _ => rfl with
    roster := s.roster.deleteWhere fun r => r.sessionId == sessionId
    fires := s.fires.deleteWhere fun r => r.sessionId == sessionId
    spawns := s.spawns.deleteWhere fun r => r.sessionId == sessionId
    pending := s.pending.deleteWhere fun r => r.sessionId == sessionId }

-- ============================================================== roster

/-- Queue a fork onto a session's roster, if it is not there. -/
def queueFork (s : Store) (sessionId forkName : String) (forkPath : Path)
    (now : Int) : Store :=
  { s with
    roster := s.roster.insertOrIgnore
      { sessionId, forkName, forkPath, queuedAt := now, ranAt := none } }

/-- The session's roster, oldest queued first. -/
def rosterOf (s : Store) (sessionId : String) : List RosterEntry :=
  s.roster.orderBy (fun r => r.sessionId == sessionId) fun a b =>
    decide (a.queuedAt < b.queuedAt)
      || (a.queuedAt == b.queuedAt && decide (a.forkName ≤ b.forkName))

/-- Record that a rostered fork was woken. -/
def touchForkRan (s : Store) (sessionId forkName : String) (now : Int) :
    Store :=
  { s with
    roster := s.roster.updateWhere
      (fun r => r.sessionId == sessionId && r.forkName == forkName)
      (fun r => { r with ranAt := some now }) fun _ => rfl }

-- ============================================================= latches

def isLatched (s : Store) (sessionId forkName triggerLabel : String) :
    Bool :=
  (s.fires.find? (sessionId, forkName, triggerLabel)).isSome

/-- Latch a trigger, and tell whether it was newly latched, i.e. the
caller should fire. -/
def tryLatchFire (s : Store) (sessionId forkName triggerLabel : String)
    (now : Int) : Store × Bool :=
  ({ s with
      fires := s.fires.insertOrIgnore
        { sessionId, forkName, triggerLabel, firedAt := now } },
    !s.isLatched sessionId forkName triggerLabel)

-- ================================================================ runs

/-- Record that a wake was issued for a fork, under the next number. -/
def recordIssuedRun (s : Store) (sessionId forkName triggerLabel : String)
    (tags : Option String) (now : Int) : Store :=
  let run : RunRec :=
    { id := lastRunId s.runs + 1
      sessionId, forkName, triggerLabel
      startedAt := now
      tags }
  { s with runs := s.runs ++ [run] }

/-- When a fork carrying one of `tags` was last issued in the project. -/
def lastRunForTags (s : Store) (projectRoot : Path) (tags : List String) :
    Option Int :=
  if tags.isEmpty then none
  else
    let inProject (r : RunRec) : Bool :=
      (s.sessions.find? r.sessionId).any fun x => x.projectRoot == projectRoot
    let hit (r : RunRec) : Bool :=
      r.tags.any fun rowTags =>
        (splitComma rowTags).any fun rt => tags.any fun t => t == rt
    (((s.runs.filter inProject).insertionSort fun a b =>
      b.startedAt ≤ a.startedAt).find? hit).map RunRec.startedAt

-- ============================================================== spawns

/-- Record a fork spawn seen in the transcript, once. -/
def recordSpawn (s : Store) (sessionId toolUseId : String)
    (forkName : Option String) (now : Int) : Store :=
  { s with
    spawns := s.spawns.insertOrIgnore
      { sessionId, toolUseId, forkName
        taskId := none
        status := "spawned"
        spawnedAt := now
        terminalAt := none } }

/-- Attach the task id a tool result reports, if the spawn has none. -/
def setSpawnTaskId (s : Store) (sessionId toolUseId taskId : String) :
    Store :=
  { s with
    spawns := s.spawns.updateWhere
      (fun r => r.sessionId == sessionId && r.toolUseId == toolUseId)
      (fun r => { r with taskId := r.taskId <|> some taskId }) fun _ => rfl }

/-- A spawn row answers to the ids of a notification. -/
def matchesIds (sessionId : String) (toolUseId taskId : Option String)
    (r : SpawnRec) : Bool :=
  r.sessionId == sessionId
    && (toolUseId.any (fun u => r.toolUseId == u)
      || taskId.any fun i => r.taskId == some i)

/-- Whether a notification's ids match a recorded spawn. -/
def isForkSpawn (s : Store) (sessionId : String)
    (toolUseId taskId : Option String) : Bool :=
  s.spawns.rows.any (matchesIds sessionId toolUseId taskId)

/-- Mark the matching spawns terminal, and tell whether one matched. A
spawn already terminal keeps its status and time. -/
def markSpawnTerminal (s : Store) (sessionId : String)
    (toolUseId taskId : Option String) (status : String) (now : Int) :
    Store × Bool :=
  if s.isForkSpawn sessionId toolUseId taskId then
    ({ s with
      spawns := s.spawns.updateWhere
        (fun r => r.status == "spawned" && matchesIds sessionId toolUseId taskId r)
        (fun r => { r with status, terminalAt := some now }) fun _ => rfl },
      true)
  else (s, false)

/-- The fork reached a terminal status in this session at `since` or
later. -/
def forkCompletedSince (s : Store) (sessionId forkName : String)
    (since : Int) : Bool :=
  s.spawns.rows.any fun r =>
    r.sessionId == sessionId && r.forkName == some forkName
      && isTerminalStatus r.status
      && r.terminalAt.any fun at_ => decide (since ≤ at_)

-- ==================================================== held dependents

/-- Hold a dependent back, in place of any earlier row of the fork. -/
def insertPendingDep (s : Store) (sessionId forkName : String)
    (forkPath : Path) (triggerLabel : String) (overlap : Bool)
    (preds : List String) (now : Int) (issue : Nat) : Store :=
  { s with
    pending := s.pending.insertOrReplace
      { sessionId, forkName, forkPath, triggerLabel, overlap
        preds := join "," preds
        createdAt := now
        issue } }

/-- The session's held dependents, oldest first. -/
def listPendingDeps (s : Store) (sessionId : String) : List PendingDep :=
  (s.pending.orderBy (fun r => r.sessionId == sessionId) fun a b =>
    decide (a.createdAt < b.createdAt)
      || (a.createdAt == b.createdAt && decide (a.forkName ≤ b.forkName))).map
    PendingRec.toDep

/-- Remove one held dependent. -/
def deletePendingDep (s : Store) (sessionId forkName : String) : Store :=
  { s with
    pending := s.pending.deleteWhere fun r =>
      r.sessionId == sessionId && r.forkName == forkName }

/-- Drop every held dependent of a session. -/
def clearPendingDeps (s : Store) (sessionId : String) : Store :=
  { s with
    pending := s.pending.deleteWhere fun r =>
      r.sessionId == sessionId }

end Store

end Autofork
