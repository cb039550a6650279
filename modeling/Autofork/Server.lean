/-
The daemon's end of a connection: the lines it reads, and what its loop
does with each.

What the JSON crate says of a line that is no request goes into the
answer as it is, and is a parameter here.
-/
import Autofork.Protocol
import Autofork.Status
import Autofork.Lib.Lines

namespace Autofork

open Lib

namespace Protocol

/-- The lines of what a connection has carried. -/
def lines (s : String) : List String :=
  (allLines '\n' s.toList).map fun l => String.ofList (l.takeWhile (· ≠ '\n'))

/-- What the loop of `handle_conn` does with a line. -/
inductive Reaction
  /-- A blank line. -/
  | skipped
  /-- `write_body`, at once. -/
  | answered (resp : Response)
  /-- `handle_stop_wait`, raced against the connection. -/
  | parked (id : UInt64) (ev : Event)
  /-- `dispatch`, whose answer goes out under that number. -/
  | dispatched (id : UInt64) (body : RequestBody)
  deriving DecidableEq, Repr

/-- A frame the daemon writes. -/
def reply (id : UInt64) (body : ResponseBody) : Response where
  proto := .ofNat protoVersion
  id
  body

def RequestBody.isShutdown : RequestBody → Bool
  | .shutdown _ => true
  | _ => false

/-- The frozen shutdown frame works across any proto skew; all other
bodies require a proto match. -/
def Request.reaction (req : Request) : Reaction :=
  if req.proto ≠ .ofNat protoVersion ∧ req.body.isShutdown = false then
    .answered (reply req.id (.error .protoMismatch
      ("daemon speaks proto " ++ toString protoVersion ++ ", client sent "
        ++ toString req.proto.toNat)))
  else match req.body with
    | .stopWait ev => .parked req.id ev
    | body => .dispatched req.id body

def handleLine (parse : String → Option JsonDoc) (complaint : String → String)
    (line : String) : Reaction :=
  if trim line.toList = [] then .skipped
  else match decode request parse line with
    | none => .answered (reply 0 (.error .badRequest
        ("bad request: " ++ complaint line)))
    | some req => req.reaction

end Protocol

end Autofork
