/-
`after` dependency resolution: the selected forks' declared
dependencies as a graph on their indices, made acyclic.

Indices are `Fin n`, so a dependency list cannot name a fork outside
the selection. The loops are the peeling library's; what is specific
here is which graph they start from.
-/
import Mathlib.Data.List.Destutter
import Autofork.Lib.Peel

namespace Autofork

open Lib

/-- A fork selected to fire, as far as scheduling is concerned. -/
class Selected (S : Type) where
  name : S → String
  /-- The `after` dependencies' fork names. -/
  after : S → List String

variable {S : Type} [Selected S]

/-- The index a name collects to: the last fork of that name, since a
later insertion overwrites an earlier one. -/
def nameToIdx (selected : List S) (a : String) :
    Option (Fin selected.length) :=
  (List.finRange selected.length).reverse.find? fun i =>
    Selected.name (selected.get i) == a

/-- The declared dependencies among the selected forks: unselected
names and self-edges dropped, repeats in a row collapsed. -/
def declaredDeps (selected : List S) (i : Fin selected.length) :
    List (Fin selected.length) :=
  (((Selected.after (selected.get i)).filterMap (nameToIdx selected)).filter
    fun d => d ≠ i).destutter (· ≠ ·)

/-- The dependencies with every cycle broken: `resolveDeps selected i`
must finish before `i` runs. -/
def resolveDeps (selected : List S) :
    Fin selected.length → List (Fin selected.length) :=
  let nodes := List.finRange selected.length
  let deps := declaredDeps selected
  Peel.breakCycles nodes (Peel.edges deps nodes + 1) deps

/-- Root nodes (no dependencies) of a resolved graph. -/
def roots {n : Nat} (deps : Fin n → List (Fin n)) : List (Fin n) :=
  (List.finRange n).filter fun i => (deps i).isEmpty

/-- The resolved dependencies have no cycle. -/
theorem resolveDeps_wellFounded (selected : List S) :
    WellFounded fun d i => d ∈ resolveDeps selected i :=
  Peel.wellFounded_of_peels fun i =>
    Peel.breakCycles_peels _ _ (Nat.lt_succ_self _) i (List.mem_finRange i)

end Autofork
