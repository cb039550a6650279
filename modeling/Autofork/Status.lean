/-
What `status` reports: the open sessions, each with the stale mark, and
the wakes issued last.
-/
import Autofork.Daemon

namespace Autofork

open Lib

/-- A wake as it is reported. -/
structure RunInfo where
  fork : String
  trigger : String
  sessionId : String
  state : String
  startedAt : Int
  deriving DecidableEq, Repr

structure StatusInfo where
  version : String
  daemonProto : Nat
  pid : Nat
  sessions : List SessionInfo
  recentRuns : List RunInfo
  deriving DecidableEq, Repr

def protoVersion : Nat := 1

def packageVersion : String := "0.8.1"

def SessionStatus.asStr : SessionStatus → String
  | .open => "open"
  | .closed => "closed"

/-- The wakes issued last, latest first: every run the code records is
an issued one. -/
def Store.listIssuedRuns (s : Store) (limit : Nat) : List RunRec :=
  (s.runs.insertionSort fun a b => b.startedAt < a.startedAt
    ∨ (b.startedAt = a.startedAt ∧ b.id ≤ a.id)).take limit

/-- `status`, at clock reading `now`. -/
def statusAt (d : Daemon) (pid : Nat) (now : Int) : StatusInfo where
  version := packageVersion
  daemonProto := protoVersion
  pid
  sessions := d.store.listOpenSessions.map fun s =>
    { sessionId := s.sessionId
      projectRoot := s.projectRoot
      status := s.status.asStr
      lastActivity := s.lastActivity
      promptTokens := s.promptTokens
      stale := isStale d s now }
  recentRuns := (d.store.listIssuedRuns 20).map fun r =>
    { fork := r.forkName
      trigger := r.triggerLabel
      sessionId := r.sessionId
      state := "issued"
      startedAt := r.startedAt }

end Autofork
