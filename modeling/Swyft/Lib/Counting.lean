import Mathlib.Algebra.Order.Ring.Int
import Mathlib.Data.List.Basic
import Mathlib.Tactic.Linarith
import Mathlib.Tactic.Ring

/-!
# Counting loops

The values that a loop `for (t = start; t < stop; t += step)` goes through.

## Main definitions

* `Counting.upTo` — the values

## Main results

* `Counting.upTo_of_lt` — the loop, one round after the other
* `Counting.mem_upTo` — which values they are
* `Counting.pairwise_upTo` — they rise
-/

namespace Counting

variable {start stop step t : ℤ}

/-- How many rounds a loop has. -/
def rounds (start stop step : ℤ) : ℕ := ((stop - start + step - 1) / step).toNat

/-- The values of a loop. -/
def upTo (start stop step : ℤ) : List ℤ :=
  (List.range (rounds start stop step)).map fun i : ℕ => start + i * step

theorem rounds_of_le (hstep : 0 < step) (h : stop ≤ start) : rounds start stop step = 0 := by
  rw [rounds, Int.toNat_eq_zero]
  have hlt : (stop - start + step - 1) / step < 1 := by
    rw [Int.ediv_lt_iff_lt_mul hstep]
    omega
  omega

theorem rounds_of_lt (hstep : 0 < step) (h : start < stop) :
    rounds start stop step = rounds (start + step) stop step + 1 := by
  have hnext : (stop - start + step - 1) / step
      = (stop - (start + step) + step - 1) / step + 1 := by
    rw [show stop - start + step - 1 = stop - (start + step) + step - 1 + 1 * step by ring,
      Int.add_mul_ediv_right _ _ hstep.ne']
  have hpos : 0 ≤ (stop - (start + step) + step - 1) / step :=
    Int.ediv_nonneg (by omega) hstep.le
  rw [rounds, rounds, hnext]
  omega

/-- A loop past its end has no rounds. -/
theorem upTo_of_le (hstep : 0 < step) (h : stop ≤ start) : upTo start stop step = [] := by
  rw [upTo, rounds_of_le hstep h]
  rfl

/-- **One round, and the others.** -/
theorem upTo_of_lt (hstep : 0 < step) (h : start < stop) :
    upTo start stop step = start :: upTo (start + step) stop step := by
  rw [upTo, upTo, rounds_of_lt hstep h, List.range_succ_eq_map, List.map_cons, List.map_map]
  congr 1
  · simp
  · refine List.map_congr_left fun i _ => ?_
    show start + ((i + 1 : ℕ) : ℤ) * step = start + step + i * step
    push_cast
    ring

/-- **The values of a loop.** -/
theorem mem_upTo (hstep : 0 < step) :
    t ∈ upTo start stop step ↔ start ≤ t ∧ t < stop ∧ step ∣ t - start := by
  rw [upTo, List.mem_map]
  constructor
  · rintro ⟨i, hi, rfl⟩
    rw [List.mem_range, rounds] at hi
    have hi : (i : ℤ) + 1 ≤ (stop - start + step - 1) / step := by omega
    rw [Int.le_ediv_iff_mul_le hstep] at hi
    have hmul : ((i : ℤ) + 1) * step = i * step + step := by ring
    have hnonneg : 0 ≤ (i : ℤ) * step := mul_nonneg (Int.natCast_nonneg i) hstep.le
    exact ⟨by omega, by omega, Dvd.intro_left (i : ℤ) (by ring)⟩
  · rintro ⟨hle, hlt, q, hq⟩
    have hq0 : 0 ≤ q := by
      by_contra hneg
      have := mul_neg_of_pos_of_neg hstep (not_le.mp hneg)
      omega
    obtain ⟨i, rfl⟩ := Int.eq_ofNat_of_zero_le hq0
    refine ⟨i, List.mem_range.mpr ?_, by linarith⟩
    have hi : (i : ℤ) + 1 ≤ (stop - start + step - 1) / step := by
      rw [Int.le_ediv_iff_mul_le hstep]
      linarith
    rw [rounds]
    omega

/-- The values rise. -/
theorem pairwise_upTo (hstep : 0 < step) : (upTo start stop step).Pairwise (· < ·) := by
  rw [upTo, List.pairwise_map]
  refine List.pairwise_lt_range.imp fun {i j} hij => ?_
  have hij : (i : ℤ) < j := by exact_mod_cast hij
  have := mul_lt_mul_of_pos_right hij hstep
  omega

end Counting
