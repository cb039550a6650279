/-
YAML values as the Rust YAML crate hands them over, with its accessors.
Mappings keep their order; a tag wraps the value it stands before.
-/
import Mathlib.Data.List.Basic

namespace Autofork.Lib

/-- A number: unsigned, negative, or neither integral. A float is its
bits. -/
inductive YamlNumber
  | posInt (n : Nat)
  | negInt (n : Int)
  | float (bits : UInt64)
  deriving DecidableEq, Repr

/-- `Number::as_u64`. -/
def YamlNumber.asU64 : YamlNumber → Option Nat
  | .posInt n => some n
  | _ => none

/-- A value. -/
inductive Yaml
  | null
  | bool (b : Bool)
  | number (n : YamlNumber)
  | string (s : String)
  | sequence (entries : List Yaml)
  | mapping (entries : List (Yaml × Yaml))
  | tagged (tag : String) (value : Yaml)

namespace Yaml

/-- `Value::as_str`: a text, whatever it is tagged with. -/
def asStr : Yaml → Option String
  | .string s => some s
  | .tagged _ value => value.asStr
  | _ => none

/-- The key of an entry, if it is a text. -/
def keyOf (entry : Yaml × Yaml) : Option String :=
  match entry.1 with
  | .string s => some s
  | _ => none

/-- `Mapping::get`, of a text. -/
def get (entries : List (Yaml × Yaml)) (key : String) : Option Yaml :=
  (entries.find? fun e => keyOf e == some key).map Prod.snd

/-- Every key is a text, and no two are the same. -/
def StringKeys (entries : List (Yaml × Yaml)) : Prop :=
  (∀ e ∈ entries, (keyOf e).isSome) ∧ (entries.map keyOf).Nodup

end Yaml

end Autofork.Lib
