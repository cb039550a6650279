/-
Duration parsing shared by frontmatter and config: a bare number is
seconds; a text takes an optional `s`/`m`/`h`/`d` suffix.

The product of number and unit is a `u64` like any other, and wraps.
-/
import Autofork.Lib.Decimal
import Autofork.Lib.Text
import Autofork.Lib.Yaml

namespace Autofork

open Lib

/-- The seconds a suffix stands for. -/
def unitSecs (c : Char) : Option Nat :=
  if c = 's' then some 1
  else if c = 'm' then some 60
  else if c = 'h' then some 3600
  else if c = 'd' then some 86400
  else none

/-- A text's number and unit, still as texts and seconds. -/
def splitUnit (s : List Char) : Option (List Char × Nat) :=
  match s.getLast? with
  | none => none
  | some c => match unitSecs c with
    | some mult => some (s.dropLast, mult)
    | none => if c.isDigit then some (s, 1) else none

/-- Parse a duration string into seconds. -/
def parseDurationStr (s : String) : Option Nat :=
  match splitUnit (trim s.toList) with
  | none => none
  | some (num, mult) => (parseU64 (trim num)).map fun n => wrapU64 (n * mult)

/-- Parse a YAML duration value into seconds. -/
def parseDurationYaml : Yaml → Option Nat
  | .number n => n.asU64
  | .string s => parseDurationStr s
  | _ => none

end Autofork
