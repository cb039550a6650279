/-
The daemon at work: the requests it has received, each a task running
its handler's program, and the steps it takes.

`step` is the interleaving semantics. One action is one section of one
task, or something from outside: a request, a lost connection, a grace
timer, an edited file. Every order of actions is a run.

Where a result takes several sections for one step, that is a condition
on the actions of a run. `unpreempted` is the strongest such condition: an action moves a task
only while every other one is between two awaits.

Timers are not bound to the clock: an await may take its timer branch
whatever the clock reads, so nothing proved here rests on how long a
sleep lasts.
-/
import Autofork.Daemon
import Autofork.Lib.Run

namespace Autofork

open Lib

-- =============================================================== tasks

/-- A request of a client. -/
inductive Request
  | event (ev : Event)
  | stopWait (ev : Event)
  | prune

/-- What a task was started for. -/
inductive Job
  | request (req : Request)
  | reap
  | grace (sessionId : String) (gen : Nat)

def Job.handler : Job → Handler ResponseBody
  | .request (.event ev) => handleEvent ev
  | .request (.stopWait ev) => handleStopWait ev
  | .request .prune => handlePrune
  | .reap => sessionReaper
  | .grace sessionId gen => graceClose sessionId gen

structure Task where
  job : Job
  started : Bool := false
  /-- A client waits for the answer. -/
  client : Bool
  prog : Handler ResponseBody

structure World where
  daemon : Daemon
  tasks : Nat → Option Task := fun _ => none
  /-- What each number was started for. -/
  jobs : List Job := []

/-- A daemon that has received nothing yet. -/
def World.init (disk : Disk) : World := { daemon := { disk } }

namespace World

/-- Start a task under the next number. -/
def spawn (w : World) (job : Job) (client : Bool) : World :=
  { w with
    tasks := upd w.tasks w.jobs.length
      (some { job, client, prog := job.handler })
    jobs := w.jobs ++ [job] }

/-- The operation a task performs next. -/
def about (w : World) (k : Nat) : Option Op :=
  match w.tasks k with
  | some { prog := .call op _, .. } => some op
  | _ => none

/-- A task that has returned goes, and a client it has is answered. -/
def finish (w : World) (k : Nat) : World :=
  match w.tasks k with
  | some { client, prog := .ret body, .. } =>
      let w := { w with tasks := upd w.tasks k none }
      if client then
        { w with daemon.log := .answered k body :: w.daemon.log }
      else w
  | _ => w

/-- Task `k` goes on as `prog`, in state `d`. -/
def resumed (w : World) (k : Nat) (task : Task) (d : Daemon)
    (prog : Handler ResponseBody) : World :=
  { w with
    daemon := d
    tasks := upd w.tasks k (some { task with started := true, prog }) }

/-- The `i`-th grace timer becomes a task. -/
def startGrace (w : World) (i : Nat) : World :=
  match w.daemon.graceTimers[i]? with
  | some (sessionId, gen) =>
      ({ w with daemon.graceTimers := w.daemon.graceTimers.eraseIdx i }).spawn
        (.grace sessionId gen) false
  | none => w

/-- The server notices a dropped connection only while the handler is
not running: before it has started, or at an await. -/
def losePoll (w : World) (k : Nat) : World :=
  match w.tasks k with
  | some ⟨.request (.stopWait ev), started, true, .call op _⟩ =>
      if !started || op.awaits then
        { w with
          tasks := upd w.tasks k (some
            ⟨.request (.stopWait ev), true, false,
              onPollLost ev.sessionId started⟩) }
      else w
  | _ => w

end World

-- ======================================================== interleaving

/-- One step of the interleaving. -/
inductive Act
  | receive (req : Request)
  /-- The session reaper's timer. -/
  | reap
  /-- The `i`-th grace timer runs down. -/
  | grace (i : Nat)
  /-- Task `k` performs its next operation, or returns. -/
  | move (k : Nat) (tick : Tick)
  /-- A poll's connection drops. -/
  | lose (k : Nat)
  /-- The files change. -/
  | edit (disk : Disk)

/-- `n` steps of task `k`, all at one clock reading. -/
def Act.moves (n k : Nat) (now : Int) : List Act :=
  List.replicate n (.move k { now })

/-- An event of session `a`, with a transcript to read. -/
def Event.simple (kind : EventKind) (a : String) : Event where
  event := kind
  sessionId := a
  transcriptPath := some "t"
  cwd := "/p"
  projectRoot := "/p"

def Act.stop (a : String) : Act :=
  .receive (.stopWait (.simple .stop a))

/-- A prompt the hook has found to be genuine. -/
def Act.prompt (a : String) : Act :=
  .receive (.event { Event.simple .promptSubmit a with waking := some true })

/-- What the clock says at an action, if the action can ask. -/
def Act.reading : Act → Option Int
  | .move _ tick => some tick.now
  | _ => none

/-- The clock does not go back. -/
def Clocked (as : List Act) : Prop :=
  (as.filterMap Act.reading).Pairwise (· ≤ ·)

instance (as : List Act) : Decidable (Clocked as) :=
  inferInstanceAs (Decidable (List.Pairwise _ _))

namespace World

/-- Task `k` performs its next operation, or returns. -/
def move (w : World) (k : Nat) (tick : Tick) : World :=
  match w.tasks k with
  | none => w
  | some task =>
      match task.prog with
      | .ret _ => w.finish k
      | .call op f => match exec k op tick w.daemon with
        | none => w
        | some (d, r) => w.resumed k task d (f r)

def step (w : World) : Act → World
  | .receive req => w.spawn (.request req) true
  | .reap => w.spawn .reap false
  | .grace i => w.startGrace i
  | .move k tick => w.move k tick
  | .lose k => w.losePoll k
  | .edit disk => { w with daemon.disk := disk }

/-- The world a run leads to. -/
abbrev after (disk : Disk) (as : List Act) : World :=
  run step (init disk) as

end World

-- ====================================================== no preemption

namespace World

/-- Task `j` is between two operations at which it lets others run:
before it has started, at one of them, or done. -/
def yielding (Y : Op → Bool) (w : World) (j : Nat) : Bool :=
  match w.tasks j with
  | some { started := true, prog := .call op _, .. } => Y op
  | _ => true

/-- The action moves no task into the middle of another's. -/
def unpreempted (w : World) : Act → Bool
  | .move k _ | .lose k => (List.range w.jobs.length).all fun j =>
      j == k || w.yielding Op.awaits j
  | _ => true

end World

end Autofork
