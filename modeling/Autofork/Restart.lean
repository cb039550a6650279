/-
The daemon over its lives.

The store is a file. A section of its lock is one statement or several,
and SQLite commits each statement by itself; only the closing of a
session is a transaction. So a daemon that dies, wherever that may be,
leaves the statements it has got through. The next one opens the file,
and has nothing else of it: the maps, the parked polls, the timers and
the tasks are gone, and requests are numbered anew.

`Section.statements` is what a section writes, statement by statement.
`Fate` is an action of a living daemon, or a death.
-/
import Autofork.System

namespace Autofork

open Lib

-- ========================================================== statements

/-- A statement that writes. -/
inductive Statement
  | upsertSession (ev : Event) (t : Int)
  | setLastActivity (sessionId : String) (t : Int)
  | bumpPauseEpoch (sessionId : String)
  | setPauseStartedAtIfUnset (sessionId : String) (t : Int)
  | setTranscriptGauge (sessionId : String) (offset : Nat)
      (promptTokens : Option Nat)
  /-- One transaction. -/
  | closeSession (sessionId : String)
  | queueFork (sessionId forkName : String) (forkPath : Path) (t : Int)
  | touchForkRan (sessionId forkName : String) (t : Int)
  | tryLatchFire (sessionId forkName key : String) (t : Int)
  | recordIssuedRun (sessionId forkName triggerLabel : String)
      (tags : Option String) (t : Int)
  | recordSpawn (sessionId toolUseId : String) (forkName : Option String)
      (t : Int)
  | setSpawnTaskId (sessionId toolUseId taskId : String)
  | markSpawnTerminal (sessionId : String) (toolUseId taskId : Option String)
      (status : String) (t : Int)
  | insertPendingDep (sessionId forkName : String) (forkPath : Path)
      (triggerLabel : String) (overlap : Bool) (preds : List String) (t : Int)
      (issue : Nat)
  | deletePendingDep (sessionId forkName : String)
  | clearPendingDeps (sessionId : String)
  deriving DecidableEq

/-- What a statement makes of the store. -/
def Statement.apply (s : Store) : Statement → Store
  | .upsertSession ev t => s.upsertSession ev t
  | .setLastActivity a t => s.setLastActivity a t
  | .bumpPauseEpoch a => s.bumpPauseEpoch a
  | .setPauseStartedAtIfUnset a t => s.setPauseStartedAtIfUnset a t
  | .setTranscriptGauge a offset promptTokens =>
      s.setTranscriptGauge a offset promptTokens
  | .closeSession a => s.closeSession a
  | .queueFork a f path t => s.queueFork a f path t
  | .touchForkRan a f t => s.touchForkRan a f t
  | .tryLatchFire a f key t => (s.tryLatchFire a f key t).1
  | .recordIssuedRun a f label tags t => s.recordIssuedRun a f label tags t
  | .recordSpawn a toolUseId f t => s.recordSpawn a toolUseId f t
  | .setSpawnTaskId a toolUseId taskId => s.setSpawnTaskId a toolUseId taskId
  | .markSpawnTerminal a toolUseId taskId status t =>
      (s.markSpawnTerminal a toolUseId taskId status t).1
  | .insertPendingDep a f path label overlap preds t issue =>
      s.insertPendingDep a f path label overlap preds t issue
  | .deletePendingDep a f => s.deletePendingDep a f
  | .clearPendingDeps a => s.clearPendingDeps a

/-- What issuing one selected fork writes, in this order. -/
def stampStatements (session : SessionRow) (t : Int) (issue : Nat)
    (sp : SelectedFork × List String) : List Statement :=
  let sel := sp.1
  let tags := if sel.tags.isEmpty then none else some (join "," sel.tags)
  [.touchForkRan session.sessionId sel.name t,
    .recordIssuedRun session.sessionId sel.name sel.trigger tags t]
    ++ (sel.latchKey.map fun key =>
      .tryLatchFire session.sessionId sel.name key t).toList
    ++ if sp.2.isEmpty then []
      else [.insertPendingDep session.sessionId sel.name sel.path sel.trigger
        sel.overlap sp.2 t issue]

/-- What one notification of a delta writes. -/
def notificationStatement (sessionId : String) (t : Int)
    (n : TaskNotification) : Option Statement :=
  (n.status.filter isTerminalStatus).map fun status =>
    .markSpawnTerminal sessionId n.toolUseId n.taskId status t

/-- What a section writes when it runs at clock reading `now`, in
order. -/
def Section.statements (now : Int) (d : Daemon) : Section → List Statement
  | .start ev t => [.upsertSession ev t]
  | .classify ev t =>
      let status := ev.notifStatus.getD ""
      if isTerminalStatus status then
        [.markSpawnTerminal ev.sessionId ev.notifToolUseId ev.notifTaskId
          status t]
      else []
  | .prompt ev waking t =>
      [.upsertSession ev t, .setLastActivity ev.sessionId t]
        ++ if waking then
          [.bumpPauseEpoch ev.sessionId, .clearPendingDeps ev.sessionId]
        else []
  | .stop ev t =>
      [.upsertSession ev t, .setLastActivity ev.sessionId t,
        .setPauseStartedAtIfUnset ev.sessionId t]
  | .ingest a delta t =>
      (delta.spawns.map fun p => .recordSpawn a p.1 p.2 t)
        ++ (delta.taskIds.map fun p => .setSpawnTaskId a p.1 p.2)
        ++ delta.notifications.filterMap (notificationStatement a t)
        ++ [.setTranscriptGauge a delta.newOffset delta.promptTokens]
  | .queue a entries => entries.map fun e => .queueFork a e.name e.path now
  | .stamp session selected t =>
      (withPreds selected).flatMap (stampStatements session t d.log.length)
  | .release session released => released.map fun dep =>
      .deletePendingDep session.sessionId dep.forkName
  | .close a => [.closeSession a]
  | .closeIfOpen a => match d.store.getSession a with
      | some session =>
          if session.status = .open then [.closeSession a] else []
      | none => []
  | .prune t => (d.store.listOpenSessions.filter (isStale d · t)).map fun x =>
      .closeSession x.sessionId

-- =============================================================== lives

/-- What happens over the lives of the daemon. -/
inductive Fate
  | act (a : Act)
  /-- The daemon dies, `n` statements into the section that task `k` is
  about to run at clock reading `now`. The next one comes up. -/
  | die (k n : Nat) (now : Int)

namespace World

/-- The file that a death leaves. -/
def left (w : World) (k n : Nat) (now : Int) : Store :=
  match w.about k with
  | some (.write x) =>
      run Statement.apply w.daemon.store ((x.statements now w.daemon).take n)
  | _ => w.daemon.store

/-- The next daemon, on the file that is left. -/
def reborn (w : World) (store : Store) : World :=
  { daemon := { store, disk := w.daemon.disk } }

def fate (w : World) : Fate → World
  | .act a => w.step a
  | .die k n now => w.reborn (w.left k n now)

/-- Where the lives lead that begin with a new file. -/
abbrev lived (disk : Disk) (fs : List Fate) : World :=
  run fate (init disk) fs

end World

end Autofork
