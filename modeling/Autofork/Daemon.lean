/-
The daemon: its shared state, the atomic sections its handlers are made
of, and the handlers as programs over those sections.

A section is one acquisition of the store's mutex, one update of one of
the maps, one channel operation, one clock reading or one read of the
file system; nothing the daemon does is finer. Which sections a handler
runs, in which order, is its program, and reads like its source.

# The log

Beside the daemon's own state there is a log, newest entry first, of
what a statement about runs has to mention: which Stop set a baseline,
which prompts were genuine, what was issued and released, what was
answered. No section reads it, except that an issuance writes its
position into the rows it holds back, which names them.
-/
import Autofork.Lib.Prog
import Autofork.Planner

namespace Autofork

open Lib

-- ============================================================= replies

structure SessionInfo where
  sessionId : String
  projectRoot : Path
  status : String
  lastActivity : Int
  promptTokens : Option Nat
  stale : Bool
  deriving DecidableEq, Repr

/-- The answers this part of the daemon gives. -/
inductive ResponseBody
  | ack
  | waited
  | wake (payload : String)
  | pruned (sessions : List SessionInfo)
  deriving DecidableEq, Repr

/-- An entry of the log. Handlers go by the number of their request. -/
inductive Obs
  /-- A Stop was recorded at `t`. -/
  | stopped (k : Nat) (sessionId : String) (t : Int)
  /-- A prompt was recorded at `t`, as genuine activity or not. -/
  | prompted (k : Nat) (sessionId : String) (waking : Bool) (t : Int)
  | closed (sessionId : String)
  /-- A handler read the clock. -/
  | clock (k : Nat) (t : Int)
  /-- A spawn row became terminal at `t`. -/
  | marked (sessionId : String) (forkName : Option String) (t : Int)
  /-- A poll read its configuration. -/
  | configured (k : Nat) (cfg : Config)
  /-- A poll became cancellable. -/
  | registered (k : Nat) (sessionId : String)
  /-- A poll took the session row it works from. -/
  | snapshot (k : Nat) (session : SessionRow)
  /-- A handler cancelled whichever poll was registered. -/
  | cancelled (k : Nat) (sessionId : String)
  | issued (k : Nat) (session : SessionRow) (selected : List SelectedFork)
      (t : Int)
  | released (k : Nat) (session : SessionRow) (released : List PendingDep)
  | answered (k : Nat) (body : ResponseBody)
  deriving DecidableEq, Repr

-- ======================================================== shared state

structure Daemon where
  store : Store := .openInMemory
  disk : Disk
  /-- The registered poll of each session. -/
  waits : String → Option Nat := fun _ => none
  /-- The polls that have been sent their cancellation. -/
  signalled : Nat → Bool := fun _ => false
  wakeIssuedAt : String → Option Int := fun _ => none
  /-- How many polls each session has parked. -/
  parked : String → Option Nat := fun _ => none
  /-- The park guards that are alive: the poll that holds one, and its
  session. -/
  guards : List (Nat × String) := []
  pendingClose : String → Option Nat := fun _ => none
  closeGen : Nat := 0
  /-- The grace timers that have been spawned. -/
  graceTimers : List (String × Nat) := []
  wakeGraceSecs : Int := 20
  log : List Obs := []

/-- A value of a map, replaced at one key. -/
def upd {κ ρ : Type} [DecidableEq κ] (f : κ → ρ) (a : κ) (b : ρ) : κ → ρ :=
  fun x => if x = a then b else f x

@[simp] theorem upd_same {κ ρ : Type} [DecidableEq κ] (f : κ → ρ) (a : κ)
    (b : ρ) : upd f a b a = b := if_pos rfl

@[simp] theorem upd_other {κ ρ : Type} [DecidableEq κ] (f : κ → ρ)
    {a x : κ} (b : ρ) (h : x ≠ a) : upd f a b x = f x := if_neg h

/-- Whether a session currently has a parked stop-wait poll. -/
def Daemon.isParked (d : Daemon) (sessionId : String) : Bool :=
  (d.parked sessionId).isSome

/-- The spawn rows terminal in `after` that were not in `before`. -/
def newlyTerminal (before after : Store) : List SpawnRec :=
  after.spawns.rows.filter fun r => r.terminalAt.isSome
    && !(before.spawns.find? r.key).any fun r => r.terminalAt.isSome

def marks (before after : Store) (t : Int) : List Obs :=
  (newlyTerminal before after).map fun r => .marked r.sessionId r.forkName t

-- ============================================ sections of the store lock

/-- The sections that write the store. -/
inductive Section
  /-- A SessionStart. -/
  | start (ev : Event) (t : Int)
  /-- A notification's ids against the spawn registry. -/
  | classify (ev : Event) (t : Int)
  /-- A prompt, once classified. -/
  | prompt (ev : Event) (waking : Bool) (t : Int)
  /-- A Stop. -/
  | stop (ev : Event) (t : Int)
  /-- A transcript delta. -/
  | ingest (sessionId : String) (delta : Delta) (t : Int)
  /-- The roster refresh. -/
  | queue (sessionId : String) (entries : List ForkEntry)
  /-- The stamping half of `build_wake`. -/
  | stamp (session : SessionRow) (selected : List SelectedFork) (t : Int)
  /-- The deleting half of `release_due`. -/
  | release (session : SessionRow) (released : List PendingDep)
  | close (sessionId : String)
  /-- A grace timer closing a session that is still open. -/
  | closeIfOpen (sessionId : String)
  | prune (t : Int)

abbrev Section.Res : Section → Type
  | .classify .. => Bool
  | .prune _ => List SessionRow
  | _ => Unit

/-- One notification of a delta. -/
def ingestNotification (sessionId : String) (t : Int) (s : Store)
    (n : TaskNotification) : Store :=
  match n.status.filter isTerminalStatus with
  | none => s
  | some status =>
      (s.markSpawnTerminal sessionId n.toolUseId n.taskId status t).1

/-- A delta's spawns, then its task ids, then its notifications, then
the gauge. -/
def applyDelta (s : Store) (sessionId : String) (delta : Delta) (t : Int) :
    Store :=
  let s := delta.spawns.foldl (fun s p => s.recordSpawn sessionId p.1 p.2 t) s
  let s := delta.taskIds.foldl (fun s p => s.setSpawnTaskId sessionId p.1 p.2) s
  let s := delta.notifications.foldl (ingestNotification sessionId t) s
  s.setTranscriptGauge sessionId delta.newOffset delta.promptTokens

/-- The classification section's statement: mark on a terminal status,
else only look. -/
def classifyNotification (s : Store) (ev : Event) (t : Int) :
    Store × Bool :=
  let status := ev.notifStatus.getD ""
  if isTerminalStatus status then
    s.markSpawnTerminal ev.sessionId ev.notifToolUseId ev.notifTaskId status t
  else (s, s.isForkSpawn ev.sessionId ev.notifToolUseId ev.notifTaskId)

/-- What a prompt writes: genuine activity also begins a new pause and
drops the dependents held for the old one. -/
def recordPrompt (s : Store) (ev : Event) (waking : Bool) (t : Int) :
    Store :=
  let s := (s.upsertSession ev t).setLastActivity ev.sessionId t
  if waking then (s.bumpPauseEpoch ev.sessionId).clearPendingDeps ev.sessionId
  else s

/-- What a Stop writes. -/
def recordStop (s : Store) (ev : Event) (t : Int) : Store :=
  ((s.upsertSession ev t).setLastActivity ev.sessionId t).setPauseStartedAtIfUnset
    ev.sessionId t

/-- A session is idle past the status heuristic, with no poll parked. -/
def isStale (d : Daemon) (session : SessionRow) (now : Int) : Bool :=
  let deadline := (d.disk.cfgFor (some session.projectRoot)).defaultIdleDeadlineSecs
  !d.isParked session.sessionId && decide (0 < deadline)
    && decide (wrapI64 (2 * asI64 deadline) < wrapI64 (now - session.lastActivity))

/-- What the session reaper closes. -/
def isTimedOut (d : Daemon) (session : SessionRow) (t : Int) : Bool :=
  let timeout := (d.disk.cfgFor (some session.projectRoot)).sessionTimeoutSecs
  let idle := (max (wrapI64 (t - session.lastActivity)) 0).toNat
  decide (0 < timeout) && decide (timeout ≤ idle)

/-- The store after a section, its result, and what the log gains, when
handler `k` runs it at clock reading `now`. -/
def Section.run (k : Nat) (now : Int) (d : Daemon) :
    (x : Section) → Store × x.Res × List Obs
  | .start ev t => (d.store.upsertSession ev t, (), [])
  | .classify ev t =>
      let (s, matched) := classifyNotification d.store ev t
      (s, matched, marks d.store s t)
  | .prompt ev waking t =>
      (recordPrompt d.store ev waking t, (),
        [.prompted k ev.sessionId waking t])
  | .stop ev t =>
      (recordStop d.store ev t, (), [.stopped k ev.sessionId t])
  | .ingest sessionId delta t =>
      let s := applyDelta d.store sessionId delta t
      (s, (), marks d.store s t)
  | .queue sessionId entries => (d.store.queueForks sessionId entries now, (), [])
  | .stamp session selected t =>
      (d.store.stampWake session selected t d.log.length, (),
        [.issued k session selected t])
  | .release session released =>
      (d.store.deleteReleased session.sessionId released, (),
        [.released k session released])
  | .close sessionId => (d.store.closeSession sessionId, (), [.closed sessionId])
  | .closeIfOpen sessionId =>
      match d.store.getSession sessionId with
      | some session =>
          if session.status = .open then
            (d.store.closeSession sessionId, (), [.closed sessionId])
          else (d.store, (), [])
      | none => (d.store, (), [])
  | .prune t =>
      let stale := d.store.listOpenSessions.filter (isStale d · t)
      (stale.foldl (fun s x => s.closeSession x.sessionId) d.store, stale,
        (stale.map fun x => .closed x.sessionId).reverse)

-- ========================================================== operations

/-- How an await was resolved. -/
inductive Branch
  | timer
  | cancelled
  | shutdown
  deriving DecidableEq, Repr

/-- What a handler does in one step. -/
inductive Op
  | now
  -- the file system
  | discover (dir : Path)
  | readFork (entry : RosterEntry)
  | cfgFor (projectRoot : Path)
  | readDelta (path : Path) (offset : Nat)
  -- the store lock
  | write (x : Section)
  | getSession (sessionId : String)
  /-- `handle_stop_wait`'s own read of its session. -/
  | snapshot (sessionId : String)
  | roster (sessionId : String)
  | tagThrottled (projectRoot : Path) (tagThrottles : List (String × Nat))
      (tags : List String) (t : Int)
  | isLatched (sessionId forkName triggerLabel : String)
  | releasable (sessionId : String)
  | timedOut
  -- the maps and the channels
  | clearPendingClose (sessionId : String)
  | nextCloseGen
  | insertPendingClose (sessionId : String) (gen : Nat)
  | takePendingClose (sessionId : String) (gen : Nat)
  | spawnGrace (sessionId : String) (gen : Nat)
  | register (sessionId : String)
  | cancelWait (sessionId : String)
  | park (sessionId : String)
  | unpark (sessionId : String)
  | recentlyWoke (sessionId : String) (t : Int)
  | noteWakeIssued (sessionId : String)
  /-- Await the timer (if any), the cancellation or the shutdown. -/
  | select (sleepSecs : Option Nat)

abbrev Op.Res : Op → Type
  | .now => Int
  | .discover _ => List ForkEntry
  | .readFork _ => Option ForkDef
  | .cfgFor _ => Config
  | .readDelta .. => Option Delta
  | .write x => x.Res
  | .getSession _ => Option SessionRow
  | .snapshot _ => Option SessionRow
  | .roster _ => List RosterEntry
  | .tagThrottled .. => Bool
  | .isLatched .. => Bool
  | .releasable _ => List PendingDep
  | .timedOut => List String
  | .nextCloseGen => Nat
  | .takePendingClose .. => Bool
  | .recentlyWoke .. => Bool
  | .select _ => Branch
  | _ => Unit

/-- What a step draws from outside: the clock, and which branch of an
await is taken. -/
structure Tick where
  now : Int
  branch : Branch := .timer
  deriving DecidableEq, Repr

def Op.awaits : Op → Bool
  | .select _ => true
  | _ => false

/-- Send a poll its cancellation. -/
def Daemon.signal (d : Daemon) : Option Nat → Daemon
  | some k => { d with signalled := upd d.signalled k true }
  | none => d

/-- `ParkGuard::new`: what it makes of the session's entry. -/
def ParkGuard.new (entry : Option Nat) : Option Nat := some (entry.getD 0 + 1)

/-- `ParkGuard::drop`: an entry that has come down to zero goes. A count
of zero would wrap. -/
def ParkGuard.drop (entry : Option Nat) : Option Nat :=
  match entry with
  | none => none
  | some c =>
      let c := if c = 0 then u64Max else c - 1
      if c = 0 then none else some c

/-- Handler `k` performs an operation; none when it is not enabled. -/
def exec (k : Nat) :
    (op : Op) → Tick → Daemon → Option (Daemon × op.Res)
  | .now, tick, d =>
      some ({ d with log := .clock k tick.now :: d.log }, tick.now)
  | .discover dir, _, d => some (d, d.disk.discover dir)
  | .readFork entry, _, d => some (d, d.disk.forkAt entry)
  | .cfgFor projectRoot, _, d =>
      let cfg := d.disk.cfgFor (some projectRoot)
      some ({ d with log := .configured k cfg :: d.log }, cfg)
  | .readDelta path offset, _, d => some (d, d.disk.readDelta path offset)
  | .write x, tick, d =>
      let (store, res, obs) := x.run k tick.now d
      some ({ d with store, log := obs ++ d.log }, res)
  | .getSession sessionId, _, d => some (d, d.store.getSession sessionId)
  | .snapshot sessionId, _, d =>
      match d.store.getSession sessionId with
      | some session =>
          some ({ d with log := .snapshot k session :: d.log }, some session)
      | none => some (d, none)
  | .roster sessionId, _, d => some (d, d.store.rosterOf sessionId)
  | .tagThrottled projectRoot tagThrottles tags t, _, d =>
      some (d, tagThrottled d.store projectRoot tagThrottles tags t)
  | .isLatched sessionId forkName triggerLabel, _, d =>
      some (d, d.store.isLatched sessionId forkName triggerLabel)
  | .releasable sessionId, _, d => some (d, d.store.releasable sessionId)
  | .timedOut, tick, d =>
      some (d, (d.store.listOpenSessions.filter (isTimedOut d · tick.now)).map
        SessionRow.sessionId)
  | .clearPendingClose sessionId, _, d =>
      some ({ d with pendingClose := upd d.pendingClose sessionId none }, ())
  | .nextCloseGen, _, d =>
      some ({ d with closeGen := d.closeGen + 1 }, d.closeGen + 1)
  | .insertPendingClose sessionId gen, _, d =>
      some ({ d with pendingClose := upd d.pendingClose sessionId (some gen) }, ())
  | .takePendingClose sessionId gen, _, d =>
      if d.pendingClose sessionId = some gen then
        some ({ d with pendingClose := upd d.pendingClose sessionId none }, true)
      else some (d, false)
  | .spawnGrace sessionId gen, _, d =>
      some ({ d with graceTimers := d.graceTimers ++ [(sessionId, gen)] }, ())
  | .register sessionId, _, d =>
      some ({ d.signal (d.waits sessionId) with
        waits := upd d.waits sessionId (some k)
        log := .registered k sessionId :: d.log }, ())
  | .cancelWait sessionId, _, d =>
      some ({ d.signal (d.waits sessionId) with
        waits := upd d.waits sessionId none
        log := .cancelled k sessionId :: d.log }, ())
  | .park sessionId, _, d =>
      some ({ d with
        parked := upd d.parked sessionId (ParkGuard.new (d.parked sessionId))
        guards := (k, sessionId) :: d.guards }, ())
  | .unpark sessionId, _, d =>
      some ({ d with
        parked := upd d.parked sessionId (ParkGuard.drop (d.parked sessionId))
        guards := d.guards.erase (k, sessionId) }, ())
  | .recentlyWoke sessionId t, _, d =>
      some (d, (d.wakeIssuedAt sessionId).any fun at_ =>
        decide (wrapI64 (t - at_) < d.wakeGraceSecs))
  | .noteWakeIssued sessionId, tick, d =>
      some ({ d with
        wakeIssuedAt := upd d.wakeIssuedAt sessionId (some tick.now) }, ())
  | .select sleepSecs, tick, d =>
      match tick.branch with
      | .timer => if sleepSecs.isSome then some (d, .timer) else none
      | .cancelled => if d.signalled k then some (d, .cancelled) else none
      | .shutdown => some (d, .shutdown)

-- ============================================================ handlers

abbrev Handler := Prog Op Op.Res

def Op.go (op : Op) : Handler op.Res := Prog.perform op

/-- Read the transcript delta and record what it shows; the session's
best-known gauge. -/
def ingestTranscript (ev : Event) : Handler (Option Nat) :=
  match ev.transcriptPath with
  | none => pure none
  | some transcript => do
      let some session ← (Op.getSession ev.sessionId).go | pure none
      let some delta ← (Op.readDelta transcript session.transcriptOffset).go
        | pure session.promptTokens
      let t ← Op.now.go
      (Op.write (.ingest ev.sessionId delta t)).go
      pure (delta.promptTokens <|> session.promptTokens)

/-- Queue every fork visible from the session's directory. -/
def refreshRoster (sessionId : String) (cwd : Path) : Handler Unit := do
  let entries ← (Op.discover cwd).go
  (Op.write (.queue sessionId entries)).go

/-- The last check on a fork that is due: its latch. -/
def considerLatch (session : SessionRow) (entry : RosterEntry)
    (fork : ForkDef) (trigger : ForkRunOn) :
    Handler (Option SelectedFork) :=
  match latchKeyFor trigger session.pauseEpoch with
  | none => pure (some (mkSelected session entry fork trigger))
  | some key => do
      let latched ← (Op.isLatched session.sessionId entry.forkName key).go
      if latched then pure none
      else pure (some (mkSelected session entry fork trigger))

/-- One turn of the selection loop. -/
def considerFork (session : SessionRow) (cfg : Config)
    (moments : List ForkMoment) (t : Int) (entry : RosterEntry) :
    Handler (Option SelectedFork) := do
  let some fork ← (Op.readFork entry).go | pure none
  match dueBy session cfg moments t entry fork with
  | none => pure none
  | some trigger =>
      -- the lock is taken only when both sides have tags to compare
      if fork.tags.isEmpty || cfg.tagThrottles.isEmpty then
        considerLatch session entry fork trigger
      else do
        let throttled ←
          (Op.tagThrottled session.projectRoot cfg.tagThrottles fork.tags t).go
        if throttled then pure none
        else considerLatch session entry fork trigger

/-- The selection loop. -/
def considerAll (session : SessionRow) (cfg : Config)
    (moments : List ForkMoment) (t : Int) :
    List RosterEntry → Handler (List SelectedFork)
  | [] => pure []
  | entry :: roster => do
      let sel ← considerFork session cfg moments t entry
      let rest ← considerAll session cfg moments t roster
      pure (sel.toList ++ rest)

/-- The forks that should fire. -/
def selectForks (session : SessionRow) (cfg : Config)
    (moments : List ForkMoment) : Handler (List SelectedFork) := do
  refreshRoster session.sessionId session.cwd
  let roster ← (Op.roster session.sessionId).go
  let t ← Op.now.go
  considerAll session cfg moments t roster

/-- Stamp a selection and build its wake. -/
def buildWake (session : SessionRow) (selected : List SelectedFork) :
    Handler (Option String) :=
  if selected.isEmpty then pure none
  else do
    let t ← Op.now.go
    (Op.write (.stamp session selected t)).go
    (Op.noteWakeIssued session.sessionId).go
    pure (some (buildWakePayload session.sessionId (conversationId session)
      session.projectRoot (wakeRoots selected) (wakeHeld selected)))

/-- Release the held dependents whose predecessors have finished. -/
def releaseDue (session : SessionRow) : Handler (Option String) := do
  let released ← (Op.releasable session.sessionId).go
  if released.isEmpty then pure none
  else do
    (Op.write (.release session released)).go
    (Op.noteWakeIssued session.sessionId).go
    pure (some (buildReleasePayload session.sessionId
      (conversationId session) session.projectRoot
      (released.map PendingDep.toDue)))

/-- Whether a prompt is genuine activity. -/
def classifyPrompt (ev : Event) (t : Int) : Handler Bool :=
  if ev.notifToolUseId.isSome || ev.notifTaskId.isSome then do
    let _ ← ingestTranscript ev
    let matched ← (Op.write (.classify ev t)).go
    if matched then pure false
    else do
      let recent ← (Op.recentlyWoke ev.sessionId t).go
      pure (!recent)
  else match ev.waking with
    | some waking => pure waking
    | none => do
        let recent ← (Op.recentlyWoke ev.sessionId t).go
        pure (!recent)

/-- The fast lifecycle events. -/
def handleEvent (ev : Event) : Handler ResponseBody := do
  (Op.clearPendingClose ev.sessionId).go
  let t ← Op.now.go
  match ev.event with
  | .sessionStart => do
      (Op.write (.start ev t)).go
      pure .ack
  | .promptSubmit => do
      let waking ← classifyPrompt ev t
      (Op.write (.prompt ev waking t)).go
      (Op.cancelWait ev.sessionId).go
      pure .ack
  | .sessionEnd => do
      (Op.cancelWait ev.sessionId).go
      (Op.write (.close ev.sessionId)).go
      pure .ack
  | .stop => pure .ack

-- ======================================================= the long poll

/-- What a parked poll works from. -/
structure Watch where
  session : SessionRow
  cfg : Config
  promptTokens : Option Nat
  maxTokens : Nat
  /-- The start of the pause, from which deadlines are measured. -/
  baseline : Int
  deadlines : List Nat
  deriving DecidableEq

/-- The moments that have elapsed for a poll. -/
def Watch.moments (w : Watch) (upTo : Int) : List ForkMoment :=
  elapsedMoments w.promptTokens w.maxTokens w.baseline w.deadlines upTo

/-- Whether some fork is due now. -/
def dueNow (w : Watch) : Handler Bool := do
  let t ← Op.now.go
  if (w.moments t).isEmpty then pure false
  else do
    let selected ← selectForks w.session w.cfg (w.moments t)
    pure (!selected.isEmpty)

/-- Park until cancelled or shut down. -/
def parkForever : Handler ResponseBody := do
  let _ ← (Op.select none).go
  pure .waited

/-- Phase C: select again over every moment elapsed by now, and issue
one wake. -/
def issueWake (w : Watch) : Handler ResponseBody := do
  let t ← Op.now.go
  let selected ← selectForks w.session w.cfg (w.moments t)
  match ← buildWake w.session selected with
  | some payload => pure (.wake payload)
  | none => parkForever

/-- Phase B: debounce, so that near-simultaneous forks batch. -/
def debounceWake (w : Watch) : Handler ResponseBody :=
  if 0 < w.cfg.wakeDebounceSecs then do
    match ← (Op.select (some w.cfg.wakeDebounceSecs)).go with
    | .timer => issueWake w
    | _ => pure .waited
  else issueWake w

/-- Phase A, once nothing was due on arrival: serve the deadlines in
turn. -/
def serveDeadlines (w : Watch) : List Nat → Handler ResponseBody
  | [] => parkForever
  | d :: rest => do
      let t ← Op.now.go
      let fireAt := wrapI64 (w.baseline + asI64 d)
      match ← (Op.select (some (max (wrapI64 (fireAt - t)) 0).toNat)).go with
      | .timer => do
          if ← dueNow w then debounceWake w else serveDeadlines w rest
      | _ => pure .waited

/-- The wait of a poll that has its session, once the forks' deadlines
are known. -/
def awaitDue (w : Watch) : Handler ResponseBody := do
  if ← dueNow w then debounceWake w else serveDeadlines w w.deadlines

/-- What a registered poll does, inside its park guard. -/
def parkedPoll (ev : Event) (t : Int) (promptTokens : Option Nat)
    (cfg : Config) : Handler ResponseBody := do
  let some session ← (Op.snapshot ev.sessionId).go | pure .waited
  match ← releaseDue session with
  | some payload => pure (.wake payload)
  | none => do
      let entries ← (Op.discover session.cwd).go
      awaitDue
        { session, cfg, promptTokens
          maxTokens := resolveContextWindow session.model promptTokens
          baseline := session.pauseStartedAt.getD t
          deadlines := idleDeadlines (entries.map fun e => e.parsed.def)
            cfg.defaultIdleDeadlineSecs }

/-- The Stop hook's long poll. -/
def handleStopWait (ev : Event) : Handler ResponseBody := do
  (Op.clearPendingClose ev.sessionId).go
  let t ← Op.now.go
  (Op.write (.stop ev t)).go
  let promptTokens ← ingestTranscript ev
  let cfg ← (Op.cfgFor ev.projectRoot).go
  (Op.register ev.sessionId).go
  (Op.park ev.sessionId).go
  let body ← parkedPoll ev t promptTokens cfg
  (Op.unpark ev.sessionId).go
  pure body

-- ==================================================== closing sessions

/-- A poll's connection dropped: schedule the grace close, then drop
the poll, and with it the park guard of one that got that far. -/
def onPollLost (sessionId : String) (parked : Bool) :
    Handler ResponseBody := do
  let gen ← Op.nextCloseGen.go
  (Op.insertPendingClose sessionId gen).go
  (Op.spawnGrace sessionId gen).go
  if parked then (Op.unpark sessionId).go
  pure .waited

/-- A grace timer that has run down. -/
def graceClose (sessionId : String) (gen : Nat) : Handler ResponseBody := do
  if ← (Op.takePendingClose sessionId gen).go then
    (Op.write (.closeIfOpen sessionId)).go
  pure .ack

def closeAll : List String → Handler ResponseBody
  | [] => pure .ack
  | sessionId :: rest => do
      (Op.write (.close sessionId)).go
      closeAll rest

/-- One pass of the session reaper. -/
def sessionReaper : Handler ResponseBody := do
  let cutoffs ← Op.timedOut.go
  closeAll cutoffs

def handlePrune : Handler ResponseBody := do
  let t ← Op.now.go
  let stale ← (Op.write (.prune t)).go
  pure (.pruned (stale.map fun s =>
    { sessionId := s.sessionId
      projectRoot := s.projectRoot
      status := "closed"
      lastActivity := s.lastActivity
      promptTokens := s.promptTokens
      stale := true }))

end Autofork
