import Mathlib.Data.Int.ModEq
import Mathlib.Tactic.Ring

/-!
# Machine integers

The program computes with `i64` values.  The model writes them as `Int`; an expression of the
source that can leave the range of `i64` on inputs the program may receive is wrapped with
`wrapI64`, the two's-complement reading the release build gives to an overflowing operation.
-/

namespace Orca

/-- The value of an overflowing `i64` expression: the representative of `x` modulo `2 ^ 64` in
`[-2 ^ 63, 2 ^ 63)`. -/
def wrapI64 (x : Int) : Int := Int.bmod x (2 ^ 64)

/-- Wrapping does nothing inside the range of `i64`. -/
lemma wrapI64_of_mem_range {x : Int} (hlo : -2 ^ 63 ≤ x) (hhi : x < 2 ^ 63) : wrapI64 x = x := by
  unfold wrapI64
  rw [Int.bmod_eq_of_le]
  · norm_num at hlo ⊢
    exact hlo
  · norm_num at hhi ⊢
    exact hhi

/-- A reading of `now_secs_since_epoch`: seconds since the Unix epoch as `i64`, saturated to `0`
on a clock set before the epoch. -/
abbrev UnixSecs := {t : Int // 0 ≤ t ∧ t < 2 ^ 63}

end Orca
