/-
The fixed-width arithmetic the sources do on times and token counts:
`u64` values are naturals, `i64` values are integers, and the places
where the width shows are wrapping `i64` and `u64` results, the `as i64`
cast, and saturating `u64` products.

Each operation is exact below its bound; the bounds are the lemmas.
-/
import Mathlib.Data.Int.Basic

namespace Autofork.Lib

/-- The largest `u64`. -/
def u64Max : Nat := 18446744073709551615

/-- An `i64` result, wrapped (release builds do not trap). -/
def wrapI64 (x : Int) : Int := x.bmod 18446744073709551616

/-- `n as i64`. -/
def asI64 (n : Nat) : Int := wrapI64 n

/-- A `u64` result, wrapped. -/
def wrapU64 (n : Nat) : Nat := n % 18446744073709551616

/-- `a.saturating_mul(b)` on `u64`. -/
def satMul (a b : Nat) : Nat := min (a * b) u64Max

theorem wrapI64_of_bounds {x : Int} (hlo : -9223372036854775808 ≤ x)
    (hhi : x < 9223372036854775808) : wrapI64 x = x := by
  rw [wrapI64, Int.bmod_def]
  split <;> omega

theorem asI64_of_lt {n : Nat} (h : n < 9223372036854775808) :
    asI64 n = n :=
  wrapI64_of_bounds (by omega) (by omega)

theorem wrapU64_of_le {n : Nat} (h : n ≤ u64Max) : wrapU64 n = n :=
  Nat.mod_eq_of_lt (by unfold u64Max at h; omega)

theorem wrapU64_le (n : Nat) : wrapU64 n ≤ u64Max := by
  unfold wrapU64 u64Max
  omega

end Autofork.Lib
