/-
The selection pipeline's decisions: which rostered forks fire at a set
of moments, what a fork's wake consumes, how a selection splits into
roots and held dependents, and what issuing it writes.

Everything here is a function of the store, of the files as they read
and of one clock reading. In the daemon the pieces run under separate
lock acquisitions; `selectFrom` is what they amount to when nothing
comes between them.
-/
import Autofork.Moments
import Autofork.Schedule
import Autofork.Store

namespace Autofork

open Lib

-- ======================================================= configuration

/-- Effective configuration. -/
structure Config where
  /-- The deadline of bare `idle` triggers; 0 disables them. -/
  defaultIdleDeadlineSecs : Nat := 600
  sessionTimeoutSecs : Nat := 43200
  wakeDebounceSecs : Nat := 5
  enableTags : Option (List String) := none
  disableTags : Option (List String) := none
  /-- Per-tag shared throttles, in seconds. -/
  tagThrottles : List (String × Nat) := []
  deriving DecidableEq, Repr

/-- Whether a fork with these tags passes the filters: a disabled tag
excludes, and a non-empty whitelist requires one of its own. -/
def tagsAllowed (forkTags : List String)
    (enable disable : Option (List String)) : Bool :=
  if disable.any fun d => forkTags.any d.contains then false
  else match enable with
    | some enable =>
        if enable.isEmpty then true else forkTags.any enable.contains
    | none => true

-- ========================================================= the files

/-- A fork found by discovery. -/
structure ForkEntry where
  name : String
  path : Path
  parsed : ParsedFork
  deriving DecidableEq, Repr

/-- What one pass over a transcript extracts. -/
structure Delta where
  newOffset : Nat
  promptTokens : Option Nat := none
  model : Option String := none
  /-- Fork spawns: the `tool_use` id, and the fork's name if legible. -/
  spawns : List (String × Option String) := []
  /-- Task ids reported by tool results, by `tool_use` id. -/
  taskIds : List (String × String) := []
  notifications : List TaskNotification := []
  deriving DecidableEq, Repr

/-- The file system as the daemon reads it. -/
structure Disk where
  /-- `discover_forks` from a directory. -/
  discover : Path → List ForkEntry
  readToString : Path → Option String
  parseForkFile : String → String → ForkParse
  /-- The effective configuration of a project. -/
  cfgFor : Option Path → Config
  /-- `read_delta`: none when the transcript cannot be read. -/
  readDelta : Path → Nat → Option Delta

/-- The disk on which every directory shows these forks, each filed
under its own name, every project has this configuration, and every
transcript reads as this delta. -/
def Disk.holding (forks : List (String × ForkDef)) (cfg : Config)
    (delta : Option Delta) : Disk where
  discover _ := forks.map fun f =>
    { name := f.1, path := f.1, parsed := ⟨f.2, "", []⟩ }
  readToString _ := some ""
  parseForkFile name _ := match forks.lookup name with
    | some fork => .fork ⟨fork, "", []⟩
    | none => .notFork false
  cfgFor _ := cfg
  readDelta _ _ := delta

-- =========================================================== selection

/-- A fork selected to fire. -/
structure SelectedFork where
  name : String
  path : Path
  /-- The label of the trigger it matched. -/
  trigger : String
  overlap : Bool
  after : List String
  tags : List String
  /-- The latch the wake consumes. -/
  latchKey : Option String
  deriving DecidableEq, Repr

instance : Selected SelectedFork := ⟨SelectedFork.name, SelectedFork.after⟩

/-- The latch of a pause. -/
def idlePauseKey (pauseEpoch : Int) : String :=
  "idle-pause:" ++ toString pauseEpoch

/-- The latch a matched trigger consumes: context thresholds latch once
per session, idle triggers once per pause. -/
def latchKeyFor (trigger : ForkRunOn) (pauseEpoch : Int) : Option String :=
  match trigger with
  | .idle _ => some (idlePauseKey pauseEpoch)
  | .contextTokens _ | .contextUsedPct _ | .contextLeft _ =>
      some trigger.label
  | _ => none

/-- The keys of two pauses differ. -/
theorem idlePauseKey_inj {m n : Nat} (h : idlePauseKey m = idlePauseKey n) :
    m = n := by
  have hl : ("idle-pause:" ++ m.repr).toList = ("idle-pause:" ++ n.repr).toList :=
    congrArg String.toList h
  rw [String.toList_append, String.toList_append, List.append_cancel_left_eq,
    Nat.toList_repr, Nat.toList_repr] at hl
  have hmn := congrArg (Nat.ofDigitChars 10 · 0) hl
  simpa only [Nat.ofDigitChars_ten_toDigits] using hmn

/-- The latch of a pause is no context threshold's. -/
theorem label_ne_idlePauseKey {trigger : ForkRunOn}
    (h : ∀ s, trigger ≠ .idle s) (pauseEpoch : Int) :
    trigger.label ≠ idlePauseKey pauseEpoch := by
  intro he
  refine trigger.label_head_ne h ?_
  rw [he, idlePauseKey, String.toList_append, List.head?_append]
  rfl

/-- Only an idle trigger takes the latch of a pause, and that of its own
pause. -/
theorem latchKeyFor_eq_idle {trigger : ForkRunOn} {m n : Nat}
    (h : latchKeyFor trigger m = some (idlePauseKey n)) : m = n := by
  cases trigger with
  | idle s => exact idlePauseKey_inj (Option.some.inj h)
  | contextTokens _ | contextUsedPct _ | contextLeft _ =>
      exact absurd (Option.some.inj h) (label_ne_idlePauseKey (by simp) _)
  | _ => cases h

/-- A trigger that is due has a latch. -/
theorem latchKeyFor_of_due {moments : List ForkMoment}
    {defaultIdleSecs : Nat} {trigger : ForkRunOn}
    (h : Due moments defaultIdleSecs trigger) (pauseEpoch : Int) :
    latchKeyFor trigger pauseEpoch = some (match trigger with
      | .idle _ => idlePauseKey pauseEpoch
      | _ => trigger.label) := by
  rcases h.supported with ⟨_, rfl⟩ | ⟨_, rfl⟩ | ⟨_, rfl⟩ | ⟨_, rfl⟩ <;> rfl

/-- The fork ran less than its throttle ago. -/
def forkThrottled (fork : ForkDef) (ranAt : Option Int) (t : Int) : Bool :=
  match fork.throttleSecs, ranAt with
  | some throttle, some ranAt =>
      decide (max (wrapI64 (t - ranAt)) 0 < asI64 throttle)
  | _, _ => false

/-- The checks before any other lock is taken: the trigger a rostered
fork is due by, unless filtered or throttled. -/
def dueBy (session : SessionRow) (cfg : Config) (moments : List ForkMoment)
    (t : Int) (entry : RosterEntry) (fork : ForkDef) : Option ForkRunOn :=
  if !tagsAllowed fork.tags (session.enableTags <|> cfg.enableTags)
      (session.disableTags <|> cfg.disableTags) then none
  else match matchMoments fork moments cfg.defaultIdleDeadlineSecs with
    | none => none
    | some trigger =>
        if forkThrottled fork entry.ranAt t then none else some trigger

/-- Some tag of the fork was issued in the project less than its window
ago. -/
def tagThrottled (store : Store) (projectRoot : Path)
    (tagThrottles : List (String × Nat)) (tags : List String) (t : Int) :
    Bool :=
  tags.any fun tag =>
    match tagThrottles.lookup tag with
    | none => false
    | some window =>
        (store.lastRunForTags projectRoot [tag]).any fun last =>
          decide (max (wrapI64 (t - last)) 0 < asI64 window)

/-- The latch the trigger would consume is taken. -/
def latchTaken (store : Store) (session : SessionRow) (forkName : String)
    (trigger : ForkRunOn) : Bool :=
  (latchKeyFor trigger session.pauseEpoch).any
    (store.isLatched session.sessionId forkName)

def mkSelected (session : SessionRow) (entry : RosterEntry)
    (fork : ForkDef) (trigger : ForkRunOn) : SelectedFork where
  name := entry.forkName
  path := entry.forkPath
  trigger := trigger.label
  overlap := fork.overlap
  after := fork.after
  tags := fork.tags
  latchKey := latchKeyFor trigger session.pauseEpoch

/-- The definition a roster entry's file holds now. -/
def Disk.forkAt (disk : Disk) (entry : RosterEntry) : Option ForkDef :=
  match disk.readToString entry.forkPath with
  | none => none
  | some content => match disk.parseForkFile entry.forkName content with
    | .fork parsed => some parsed.def
    | _ => none

/-- The whole verdict on one roster entry. -/
def selectEntry (store : Store) (disk : Disk) (session : SessionRow)
    (cfg : Config) (moments : List ForkMoment) (t : Int)
    (entry : RosterEntry) : Option SelectedFork :=
  match disk.forkAt entry with
  | none => none
  | some fork => match dueBy session cfg moments t entry fork with
    | none => none
    | some trigger =>
        if tagThrottled store session.projectRoot cfg.tagThrottles fork.tags t
            || latchTaken store session entry.forkName trigger then none
        else some (mkSelected session entry fork trigger)

/-- The forks selected from the session's roster. -/
def selectFrom (store : Store) (disk : Disk) (session : SessionRow)
    (cfg : Config) (moments : List ForkMoment) (t : Int) :
    List SelectedFork :=
  (store.rosterOf session.sessionId).filterMap
    (selectEntry store disk session cfg moments t)

/-- Queue every discovered fork onto the session's roster. -/
def Store.queueForks (store : Store) (sessionId : String)
    (entries : List ForkEntry) (t : Int) : Store :=
  entries.foldl (fun s e => s.queueFork sessionId e.name e.path t) store

-- ============================================================ issuance

/-- The final component of a path, unless it is `..`. -/
def fileName (p : Path) : Option (List Char) :=
  match ((p.toList.splitOn '/').filter fun c => c ≠ [] && c ≠ ['.']).getLast? with
  | none => none
  | some c => if c = ['.', '.'] then none else some c

/-- The final component without its extension. -/
def fileStem (p : Path) : Option String :=
  (fileName p).map fun name =>
    match name.reverse.dropWhile (· ≠ '.') with
    | _ :: stem => String.ofList (if stem = [] then name else stem.reverse)
    | [] => String.ofList name

/-- The identity that survives a resume: the transcript's stem. -/
def conversationId (session : SessionRow) : String :=
  ((session.transcriptPath.bind fileStem)).getD session.sessionId

/-- The names a selected fork waits for. -/
def wakePreds (selected : List SelectedFork) (i : Fin selected.length) :
    List String :=
  (resolveDeps selected i).map fun j => (selected.get j).name

/-- The selected forks, each with the names it waits for. -/
def withPreds (selected : List SelectedFork) :
    List (SelectedFork × List String) :=
  (List.finRange selected.length).map fun i =>
    (selected.get i, wakePreds selected i)

/-- The selected forks that spawn now. -/
def wakeRoots (selected : List SelectedFork) : List DueFork :=
  ((withPreds selected).filter fun sp => sp.2.isEmpty).map fun sp =>
    { name := sp.1.name
      path := sp.1.path
      trigger := sp.1.trigger
      overlap := sp.1.overlap
      after := [] }

/-- The selected forks that are held back. -/
def wakeHeld (selected : List SelectedFork) : List HeldFork :=
  ((withPreds selected).filter fun sp => !sp.2.isEmpty).map fun sp =>
    { name := sp.1.name, after := sp.2 }

/-- What issuing one selected fork writes. -/
def Store.stampFork (session : SessionRow) (t : Int) (issue : Nat)
    (store : Store) (sp : SelectedFork × List String) : Store :=
  let sel := sp.1
  let store := store.touchForkRan session.sessionId sel.name t
  let tags := if sel.tags.isEmpty then none else some (join "," sel.tags)
  let store := store.recordIssuedRun session.sessionId sel.name sel.trigger tags t
  let store := match sel.latchKey with
    | some key => (store.tryLatchFire session.sessionId sel.name key t).1
    | none => store
  if sp.2.isEmpty then store
  else store.insertPendingDep session.sessionId sel.name sel.path sel.trigger
    sel.overlap sp.2 t issue

/-- What issuing a selection writes. -/
def Store.stampWake (store : Store) (session : SessionRow)
    (selected : List SelectedFork) (t : Int) (issue : Nat) : Store :=
  (withPreds selected).foldl (Store.stampFork session t issue) store

-- ============================================================= release

/-- The held dependents whose predecessors have all completed since
they were held. -/
def Store.releasable (store : Store) (sessionId : String) :
    List PendingDep :=
  (store.listPendingDeps sessionId).filter fun dep =>
    dep.preds.all fun pred =>
      store.forkCompletedSince sessionId pred dep.createdAt

/-- What releasing dependents deletes. -/
def Store.deleteReleased (store : Store) (sessionId : String)
    (released : List PendingDep) : Store :=
  released.foldl (fun s dep => s.deletePendingDep sessionId dep.forkName) store

def PendingDep.toDue (dep : PendingDep) : DueFork where
  name := dep.forkName
  path := dep.forkPath
  trigger := dep.triggerLabel
  overlap := dep.overlap
  after := dep.preds

end Autofork
