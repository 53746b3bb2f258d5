import Mathlib.Data.Nat.Sqrt
import Mathlib.Tactic.Ring
import Mathlib.Tactic.Linarith
import Mathlib.Algebra.Order.Ring.Int

/-!
# Newton's iteration for integer square roots

The step `(x + n / x) / 2` from an estimate `x` of the square root of `n`, rounded down twice. From
a positive estimate it never goes below the root, and from at or above the root it stops falling
only at the root.

## Main results

* `Newton.sqrt_le_step` — a step stays at or above the root
* `Newton.eq_sqrt_of_le_step` — where a step does not fall, the estimate is the root
-/

namespace Newton

/-- The next estimate. -/
def step (n x : ℕ) : ℕ := (x + n / x) / 2

variable {n x : ℕ}

/-- A step stays at or above the root. -/
theorem sqrt_le_step (hx : 0 < x) : n.sqrt ≤ step n x := by
  have hroot := Nat.sqrt_le n
  have hquot : 2 * n.sqrt - x ≤ n / x := by
    rw [Nat.le_div_iff_mul_le hx]
    refine le_trans ?_ hroot
    rcases le_or_gt (2 * n.sqrt) x with hle | hlt
    · rw [Nat.sub_eq_zero_of_le hle, Nat.zero_mul]
      exact Nat.zero_le _
    · -- `(2 s - x) x ≤ s ^ 2`, since `(s - x) ^ 2` is not negative
      obtain ⟨d, hd⟩ := Nat.exists_eq_add_of_le hlt.le
      rw [hd, Nat.add_sub_cancel_left]
      zify at hd ⊢
      nlinarith [sq_nonneg ((n.sqrt : ℤ) - x)]
  rw [step]
  omega

/-- Where a step from at or above the root does not fall, the estimate is the root. -/
theorem eq_sqrt_of_le_step (hx : 0 < x) (hroot : n.sqrt ≤ x) (hstop : x ≤ step n x) :
    x = n.sqrt := by
  have hquot : x ≤ n / x := by
    rw [step] at hstop
    omega
  refine le_antisymm (Nat.le_sqrt.mpr ?_) hroot
  exact (Nat.le_div_iff_mul_le hx).mp hquot

end Newton
