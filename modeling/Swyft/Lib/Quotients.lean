import Mathlib.Algebra.Order.Field.Rat
import Mathlib.Data.Rat.Cast.Order
import Mathlib.Tactic.Linarith
import Mathlib.Tactic.Ring

/-!
# Quotients taken with another denominator

An exact quotient `m * c / e` is computed as `n / d`, with a numerator `n` that may have been cut
short of `m` and a denominator `d` that stands for `e / c`. Where `d * c` is below `e` the computed
quotient tends to be too large, where it is above to be too small; rounding the other way makes up
for it as long as the error of the denominator, as often as the quotient counts it, stays within
what the rounding gives away.

## Main results

* `floor_mul_le_iff` — the floor over a denominator that is too small
* `le_ceil_mul_iff` — the next integer over a denominator that is too large
-/

namespace Quotients

variable {n m d e c k : ℕ}

/-- **A floor over a denominator that is too small** does not exceed the exact quotient exactly if
what the denominator lacks, times the floor, is made up by the remainder and the numerator's cut. -/
theorem floor_mul_le_iff (hn : n ≤ m) (he : d * c ≤ e) :
    n / d * e ≤ m * c ↔ n / d * (e - d * c) ≤ (n % d + (m - n)) * c := by
  obtain ⟨x, rfl⟩ := Nat.exists_eq_add_of_le he
  obtain ⟨y, rfl⟩ := Nat.exists_eq_add_of_le hn
  have hdiv := Nat.div_add_mod n d
  rw [Nat.add_sub_cancel_left, Nat.add_sub_cancel_left]
  have hleft : n / d * (d * c + x) = d * (n / d) * c + n / d * x := by ring
  have hright : (n + y) * c = d * (n / d) * c + (n % d + y) * c := by
    conv_lhs => rw [← hdiv]
    ring
  rw [hleft, hright]
  exact Nat.add_le_add_iff_left

/-- **The next integer over a denominator that is too large** is at least the exact quotient exactly
if what the denominator has in excess, times the floor, and the remainder with the numerator's cut
fit into one denominator. -/
theorem le_ceil_mul_iff (hn : n ≤ m) (he : e ≤ d * c) :
    m * c ≤ (n / d + 1) * e ↔ n / d * (d * c - e) + (n % d + (m - n)) * c ≤ e := by
  obtain ⟨x, hx⟩ := Nat.exists_eq_add_of_le he
  obtain ⟨y, rfl⟩ := Nat.exists_eq_add_of_le hn
  have hdiv := Nat.div_add_mod n d
  rw [hx, Nat.add_sub_cancel_left, Nat.add_sub_cancel_left]
  have hleft : (n + y) * c = n / d * e + (n / d * x + (n % d + y) * c) :=
    calc (n + y) * c = n / d * (d * c) + (n % d + y) * c := by
          conv_lhs => rw [← hdiv]
          ring
      _ = _ := by rw [hx]; ring
  have hright : (n / d + 1) * e = n / d * e + e := by ring
  rw [hleft, hright]
  exact Nat.add_le_add_iff_left

/-- An integer bounds an exact quotient from above. -/
theorem div_le_cast_iff (he : 0 < e) : ((m : ℚ) / e ≤ k) ↔ m ≤ k * e := by
  rw [div_le_iff₀ (by exact_mod_cast he)]
  exact_mod_cast Iff.rfl

/-- An integer bounds an exact quotient from below. -/
theorem cast_le_div_iff (he : 0 < e) : ((k : ℚ) ≤ m / e) ↔ k * e ≤ m := by
  rw [le_div_iff₀ (by exact_mod_cast he)]
  exact_mod_cast Iff.rfl

end Quotients
