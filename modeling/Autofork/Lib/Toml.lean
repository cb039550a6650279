/-
TOML values as the Rust TOML crate hands them over.
-/
import Mathlib.Data.List.Basic

namespace Autofork.Lib

/-- A value. An integer is an `i64`, a float its bits, and a date its
text. -/
inductive Toml
  | string (s : String)
  | integer (n : Int)
  | float (bits : UInt64)
  | boolean (b : Bool)
  | datetime (text : String)
  | array (entries : List Toml)
  | table (entries : List (String × Toml))

namespace Toml

/-- Deserialise a text. -/
def asString : Toml → Option String
  | .string s => some s
  | _ => none

/-- Deserialise a list of texts: every entry is one. -/
def asStrings : Toml → Option (List String)
  | .array entries => entries.mapM asString
  | _ => none

/-- Deserialise a map of values. -/
def asTable : Toml → Option (List (String × Toml))
  | .table entries => some entries
  | _ => none

end Toml

end Autofork.Lib
