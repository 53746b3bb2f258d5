import Mathlib.Algebra.BigOperators.Group.List.Basic
import Mathlib.Tactic.Ring
import Mathlib.Tactic.Linarith
import Mathlib.Algebra.Order.Ring.Nat

/-!
# What floors lose

A quotient paid out in pieces is floored once for each piece. The pieces add up to the floor of
the whole less an integer that depends on the remainders alone; these lemmas name that integer
and compare floors of sums and differences.

## Main results

* `Floors.div_eq_sum_div_add` — the floor of a whole, from the floors of its parts
* `Floors.div_le_sub_div_iff` — when taking a part off a total keeps its floor
* `Floors.sum_div_le` — floors of parts add up to at most the floor of the whole
* `Floors.round_trip_iff` — when scaling up and down again loses nothing
-/

namespace Floors

variable {d total : ℕ} {parts : List ℕ}

theorem sum_div_mul_add (parts : List ℕ) (d : ℕ) :
    (parts.map (· / d)).sum * d + (parts.map (· % d)).sum = parts.sum := by
  induction parts with
  | nil => simp
  | cons x parts ih =>
    have hx := Nat.div_add_mod x d
    simp only [List.map_cons, List.sum_cons]
    calc (x / d + (parts.map (· / d)).sum) * d + (x % d + (parts.map (· % d)).sum)
        = (d * (x / d) + x % d)
          + ((parts.map (· / d)).sum * d + (parts.map (· % d)).sum) := by ring
      _ = x + parts.sum := by rw [hx, ih]

/-- The part of `total / d` that is lost when `parts` are floored one by one: what is left over
and the remainders of the parts, floored together. -/
def lost (total d : ℕ) (parts : List ℕ) : ℕ :=
  (total - parts.sum + (parts.map (· % d)).sum) / d

/-- **The floor of a whole** is the floors of its parts and what they lose. -/
theorem div_eq_sum_div_add (hd : 0 < d) (hle : parts.sum ≤ total) :
    total / d = (parts.map (· / d)).sum + lost total d parts := by
  have hsum := sum_div_mul_add parts d
  have htotal : total
      = (total - parts.sum + (parts.map (· % d)).sum) + (parts.map (· / d)).sum * d := by omega
  rw [lost, add_comm]
  conv_lhs => rw [htotal]
  exact Nat.add_mul_div_right _ _ hd

/-- Floors of parts add up to at most the floor of the whole. -/
theorem sum_div_le (hd : 0 < d) (hle : parts.sum ≤ total) :
    (parts.map (· / d)).sum ≤ total / d := by
  rw [div_eq_sum_div_add hd hle]
  exact Nat.le_add_right _ _

/-- Taking `part` off a total keeps its floor exactly when the remainder covers `part`. -/
theorem div_le_sub_div_iff {part : ℕ} (hd : 0 < d) (hle : part ≤ total) :
    total / d ≤ (total - part) / d ↔ part ≤ total % d := by
  have hmod := Nat.div_add_mod total d
  rw [Nat.le_div_iff_mul_le hd, mul_comm]
  omega

/-! ### Scaling up and down again -/

/-- A product with a quotient, taken over the whole and the fractional part. -/
theorem split_mul_div (x k : ℕ) {q : ℕ} (hq : 0 < q) : x / q * k + x % q * k / q = x * k / q := by
  have hsplit : x * k = q * (x / q * k) + x % q * k := by
    nth_rewrite 1 [← Nat.div_add_mod x q]
    ring
  rw [hsplit, Nat.mul_add_div hq]

/-- Multiplying by `q / d` and then by `d / q`, rounding down both times, gives back the number
exactly when the first quotient was exact. -/
theorem round_trip_iff {n d q : ℕ} (hd : 0 < d) (hle : d ≤ q) :
    n * q / d * d / q = n ↔ d ∣ n * q := by
  have hq : 0 < q := lt_of_lt_of_le hd hle
  constructor
  · intro h
    have hge : n * q ≤ n * q / d * d := (Nat.le_div_iff_mul_le hq).mp h.ge
    refine ⟨n * q / d, ?_⟩
    rw [mul_comm d]
    exact le_antisymm hge (Nat.div_mul_le_self _ _)
  · intro h
    rw [Nat.div_mul_cancel h, Nat.mul_div_cancel _ hq]

end Floors
