/-
How the daemon comes up: the CLI's processes, which spawn it, and its
own, on one host with one set of paths.

Each process is at some line of its program, and takes one step at a
time: a call of the system, or a test of the deadline. Any of them may
die between two steps. What a call returns beyond the locks and the
socket (whether a file can be opened, whether a daemon found is
outdated, when a deadline passes, when a daemon is told to stop) is
drawn from outside.

A file that is dropped at the end of its scope is closed by a step of
its own; a process that exits or dies has all its files closed.
-/
import Autofork.Lib.Flock
import Autofork.Lib.Run

namespace Autofork

open Lib

-- =========================================================== programs

/-- The lock files: `daemon_lock`, which the daemon holds for its whole
life, and `spawn_lock`, which serializes the CLIs that spawn it. -/
inductive LockFile
  | daemonLock
  | spawnLock
  deriving DecidableEq, Repr

/-- Where a CLI process is. -/
inductive Cli
  /-- Between two of the calls below. -/
  | idle
  /-- `ensure_current_version`: the daemon is asked for its version. -/
  | hello
  /-- An outdated daemon is told to shut down. -/
  | shutdown
  /-- The loop that waits for the old daemon's lock. -/
  | probe
  /-- The lock has been had, and is dropped again. -/
  | probed
  /-- `connect_or_spawn`. -/
  | connect
  /-- `spawn_daemon_locked`: the loop of `flock_until`. -/
  | flockUntil
  /-- Under the spawn lock: the race winner may have brought the daemon
  up. -/
  | recheck
  /-- Staleness: acquirable means dead. -/
  | tryFlock
  | removeFile
  /-- The end of the scope of the daemon lock. -/
  | dropDaemonLock
  | spawn
  /-- The end of the scope of the spawn lock. -/
  | dropSpawnLock (ok : Bool)
  /-- `connect_or_spawn`: the loop that waits for the socket. -/
  | reconnect
  deriving DecidableEq, Repr

/-- Where a daemon process is in its `main`. -/
inductive Main
  | tryLock
  | openStore
  /-- `async_main`: any existing socket file is stale. -/
  | removeStale
  | bind
  | serve
  /-- On the way out. -/
  | removeFile
  /-- The end of the scope of the lock, and of the process. -/
  | dropLock
  deriving DecidableEq, Repr

/-- The daemon is between acquiring its lock and releasing it. -/
def Main.locked : Main → Bool
  | .tryLock => false
  | _ => true

/-- A process. A CLI that `connect_or_spawn` has sent to spawn the daemon
waits for its socket afterwards; `spawn_daemon_detached` does not. -/
inductive Process
  | cli (at_ : Cli) (polls : Bool)
  | daemon (at_ : Main)
  deriving DecidableEq, Repr

/-- What a CLI calls to have a daemon. -/
inductive Entry
  | connectOrSpawn
  | ensureCurrentVersion
  | spawnDaemonDetached
  deriving DecidableEq, Repr

def Entry.start : Entry → Process
  | .connectOrSpawn => .cli .connect true
  | .ensureCurrentVersion => .cli .hello true
  | .spawnDaemonDetached => .cli .flockUntil false

-- =============================================================== host

structure Host where
  /-- The processes that are alive. -/
  procs : Nat → Option Process := fun _ => none
  /-- How many there have been. -/
  started : Nat := 0
  holders : Holders Nat LockFile := fun _ => none
  /-- The socket file, by the process that bound it. -/
  socket : Option Nat := none

/-- What a step draws from outside: whether what it tries can be done at
all, and whether its deadline has passed. -/
structure Draw where
  ok : Bool := true
  late : Bool := false
  deriving DecidableEq, Repr

namespace Host

/-- Process `p` goes on. -/
def proceed (h : Host) (p : Nat) (proc : Process) : Host :=
  { h with procs := Function.update h.procs p (some proc) }

/-- A process starts, under the next number. -/
def start (h : Host) (proc : Process) : Host :=
  { h with
    procs := Function.update h.procs h.started (some proc)
    started := h.started + 1 }

/-- Process `p` exits or dies. -/
def exit (h : Host) (p : Nat) : Host :=
  { h with
    procs := Function.update h.procs p none
    holders := h.holders.leave p }

section procs

variable (h : Host) {p q : Nat} (proc : Process)

@[simp] theorem procs_proceed : (h.proceed p proc).procs p = some proc :=
  Function.update_self ..

@[simp] theorem procs_proceed_of_ne (hq : q ≠ p) :
    (h.proceed p proc).procs q = h.procs q :=
  Function.update_of_ne hq ..

@[simp] theorem procs_start : (h.start proc).procs h.started = some proc :=
  Function.update_self ..

@[simp] theorem procs_start_of_ne (hq : q ≠ h.started) :
    (h.start proc).procs q = h.procs q :=
  Function.update_of_ne hq ..

@[simp] theorem procs_exit : (h.exit p).procs p = none :=
  Function.update_self ..

@[simp] theorem procs_exit_of_ne (hq : q ≠ p) :
    (h.exit p).procs q = h.procs q :=
  Function.update_of_ne hq ..

end procs

/-- `try_flock`, and the daemon's `try_lock`: none when the file cannot
be opened or another holds the lock. -/
def tryFlock (h : Host) (p : Nat) (l : LockFile) (draw : Draw) : Option Host :=
  if draw.ok then
    (h.holders.tryFlock p l).map fun holders => { h with holders }
  else none

/-- The file of a lock is dropped. -/
def close (h : Host) (p : Nat) (l : LockFile) : Host :=
  { h with holders := h.holders.close p l }

/-- `remove_file` on the socket's path. -/
def removeFile (h : Host) (draw : Draw) : Host :=
  if draw.ok then { h with socket := none } else h

/-- The socket answers: it was bound by a daemon that listens. -/
def answers (h : Host) (draw : Draw) : Bool :=
  draw.ok && (h.socket.bind h.procs == some (.daemon .serve))

/-- `spawn_daemon_locked` has returned. -/
def returned (h : Host) (p : Nat) (polls ok : Bool) : Host :=
  h.proceed p (.cli (if polls && ok then .reconnect else .idle) polls)

/-- A CLI process takes a step. -/
def moveCli (h : Host) (p : Nat) (polls : Bool) (draw : Draw) : Cli → Host
  | .idle => h
  | .hello => h.proceed p (.cli (if draw.ok then .shutdown else .idle) polls)
  | .shutdown => h.proceed p (.cli .probe polls)
  | .probe =>
      if draw.late then h.proceed p (.cli .connect polls)
      else match h.tryFlock p .daemonLock draw with
        | some h => h.proceed p (.cli .probed polls)
        | none => h
  | .probed => (h.close p .daemonLock).proceed p (.cli .connect polls)
  | .connect =>
      h.proceed p (.cli (if h.answers draw then .idle else .flockUntil) polls)
  | .flockUntil => match h.tryFlock p .spawnLock draw with
      | some h => h.proceed p (.cli .recheck polls)
      -- someone else is spawning
      | none => if draw.late then h.returned p polls true else h
  | .recheck => h.proceed p
      (.cli (if h.answers draw then .dropSpawnLock true else .tryFlock) polls)
  | .tryFlock => match h.tryFlock p .daemonLock draw with
      | some h => h.proceed p (.cli .removeFile polls)
      -- a daemon lives, maybe still booting
      | none => h.proceed p (.cli (.dropSpawnLock true) polls)
  | .removeFile => (h.removeFile draw).proceed p (.cli .dropDaemonLock polls)
  | .dropDaemonLock => (h.close p .daemonLock).proceed p (.cli .spawn polls)
  | .spawn =>
      -- the child inherits neither lock: both files are close-on-exec
      if draw.ok then
        (h.start (.daemon .tryLock)).proceed p (.cli (.dropSpawnLock true) polls)
      else h.proceed p (.cli (.dropSpawnLock false) polls)
  | .dropSpawnLock ok => (h.close p .spawnLock).returned p polls ok
  | .reconnect =>
      if h.answers draw || draw.late then h.proceed p (.cli .idle polls) else h

/-- A daemon process takes a step. -/
def moveMain (h : Host) (p : Nat) (draw : Draw) : Main → Host
  | .tryLock => match h.tryFlock p .daemonLock draw with
      | some h => h.proceed p (.daemon .openStore)
      | none => h.exit p
  | .openStore => if draw.ok then h.proceed p (.daemon .removeStale) else h.exit p
  | .removeStale => (h.removeFile draw).proceed p (.daemon .bind)
  | .bind =>
      if draw.ok && h.socket.isNone then
        { h with socket := some p }.proceed p (.daemon .serve)
      else h.exit p
  | .serve => h.proceed p (.daemon .removeFile)
  | .removeFile => (h.removeFile draw).proceed p (.daemon .dropLock)
  | .dropLock => h.exit p

/-- One step of the interleaving. -/
inductive Act
  /-- Somebody runs the CLI, or the daemon by hand. -/
  | run (byHand : Bool)
  /-- An idle CLI wants a daemon. -/
  | call (p : Nat) (entry : Entry)
  | move (p : Nat) (draw : Draw)
  /-- Process `p` dies, or exits. -/
  | die (p : Nat)
  deriving DecidableEq, Repr

def step (h : Host) : Act → Host
  | .run byHand => h.start (if byHand then .daemon .tryLock else .cli .idle false)
  | .call p entry => match h.procs p with
      | some (.cli .idle _) => h.proceed p entry.start
      | _ => h
  | .move p draw => match h.procs p with
      | some (.cli at_ polls) => h.moveCli p polls draw at_
      | some (.daemon at_) => h.moveMain p draw at_
      | none => h
  | .die p => h.exit p

/-- The host a run leads to, from one nothing runs on yet. -/
abbrev after (acts : List Act) : Host := Lib.run step {} acts

end Host

end Autofork
