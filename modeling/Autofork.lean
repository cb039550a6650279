import Autofork.Lib.Prog
import Autofork.Lib.Peel
import Autofork.Lib.Run
import Autofork.Lib.Table
import Autofork.Moments
import Autofork.Schedule
import Autofork.Wake
import Autofork.Hook
import Autofork.Planner
import Autofork.Daemon
import Autofork.System
import Autofork.Proofs.Sections
import Autofork.Proofs.Select
import Autofork.Proofs.Steps
import Autofork.Proofs.Latch
import Autofork.Proofs.Held
import Autofork.Proofs.MidTurn
import Autofork.Proofs.Completion
import Autofork.Proofs.Refire
import Autofork.Proofs.Reentry
import Autofork.Proofs.Throttle
import Autofork.Proofs.Budget
import Autofork.Proofs.Stamped
import Autofork.Proofs.Debounce
import Autofork.Migrations
import Autofork.Proofs.Interrupted
import Autofork.Proofs.Inert
import Autofork.Transcript
import Autofork.Proofs.Recognised
import Autofork.Proofs.Deadlines
import Autofork.Proofs.Grace
import Autofork.Proofs.Cycles
import Autofork.Proofs.Names
import Autofork.Proofs.Envelope
import Autofork.Proofs.Classified
import Autofork.Lib.Utf8
import Autofork.TailRead
import Autofork.Proofs.Reading
import Autofork.Proofs.Items
import Autofork.Proofs.Batches
import Autofork.Lib.Firsts
import Autofork.Discovery
import Autofork.Proofs.Discovered
import Autofork.Proofs.Drain
import Autofork.Proofs.Early
import Autofork.Proofs.IdleDue
import Autofork.Proofs.Thresholds
import Autofork.Proofs.Arithmetic
import Autofork.Duration
import Autofork.Proofs.Durations
import Autofork.ForkFile
import Autofork.Proofs.Fences
import Autofork.Proofs.Tags
import Autofork.Status
import Autofork.Proofs.Prune
import Autofork.Proofs.Fallbacks
import Autofork.Config
import Autofork.Proofs.Layers
import Autofork.Proofs.Roster
import Autofork.Proofs.Feedback
import Autofork.Lib.Unwinding
import Autofork.Lib.Paired
import Autofork.Proofs.Congruence
import Autofork.Proofs.Own
import Autofork.Proofs.Alike
import Autofork.Lib.Ranks
import Autofork.Proofs.Seen
import Autofork.Proofs.Apart
import Autofork.Proofs.Bookkeeping
import Autofork.Lib.Flock
import Autofork.Launch
import Autofork.Proofs.Single
import Autofork.Lib.Json
import Autofork.Lib.Serde
import Autofork.Protocol
import Autofork.Server
import Autofork.Proofs.Wire
import Autofork.Service
import Autofork.Proofs.Serving
import Autofork.Proofs.Records
import Autofork.Proofs.Answers
import Autofork.Proofs.Delivery
import Autofork.Proofs.Quiet
import Autofork.Restart
import Autofork.Proofs.Statements
import Autofork.Proofs.Sightings
import Autofork.Proofs.Durable
import Autofork.Proofs.Ledger
import Autofork.Proofs.Waited
import Autofork.Client
import Autofork.Proofs.Hooks
