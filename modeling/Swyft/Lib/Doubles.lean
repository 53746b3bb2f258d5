import Mathlib.Algebra.Order.Floor.Ring
import Mathlib.Data.Int.Log
import Mathlib.Data.Rat.Floor
import Mathlib.Tactic.NormNum

/-!
# Doubles

The result of an operation on doubles is the exact result, rounded to the nearest double, and to
the even one of two that are equally near. Rationals stand for the finite doubles; results that are
too large for one are left out.

## Main definitions

* `Doubles.nearest` — the nearest integer, ties to even
* `Doubles.round` — the nearest double

## Main results

* `Doubles.round_nonneg` — rounding keeps the sign
* `Doubles.round_mul_two_zpow` — numbers of up to fifty-three bits are doubles
* `Doubles.exists_round` — nothing else is
* `Doubles.exists_round_intCast` — whole numbers stay whole
* `Doubles.abs_round_sub_le` — numbers below `2 ^ 53` are moved by one at most
-/

namespace Doubles

/-- The nearest integer, and the even one of two. -/
def nearest (x : ℚ) : ℤ :=
  if x - ⌊x⌋ < 1 / 2 then ⌊x⌋
  else if 1 / 2 < x - ⌊x⌋ then ⌊x⌋ + 1
  else if ⌊x⌋ % 2 = 0 then ⌊x⌋ else ⌊x⌋ + 1

/-- The exponent of the last of the fifty-three bits of a double near `x`. -/
def exponent (x : ℚ) : ℤ := max (Int.log 2 |x| - 52) (-1074)

/-- The nearest double. -/
def round (x : ℚ) : ℚ := nearest (x / 2 ^ exponent x) * 2 ^ exponent x

theorem floor_le_nearest (x : ℚ) : ⌊x⌋ ≤ nearest x := by
  unfold nearest
  split_ifs <;> omega

theorem nearest_nonneg {x : ℚ} (h : 0 ≤ x) : 0 ≤ nearest x :=
  (Int.floor_nonneg.mpr h).trans (floor_le_nearest x)

theorem nearest_intCast (n : ℤ) : nearest n = n := by
  rw [nearest, Int.floor_intCast, sub_self, if_pos (by norm_num)]

/-- **Rounding keeps the sign.** -/
theorem round_nonneg {x : ℚ} (h : 0 ≤ x) : 0 ≤ round x := by
  have hstep : (0 : ℚ) < 2 ^ exponent x := zpow_pos two_pos _
  have hnearest : (0 : ℚ) ≤ nearest (x / 2 ^ exponent x) := by
    exact_mod_cast nearest_nonneg (div_nonneg h hstep.le)
  exact mul_nonneg hnearest hstep.le

/-- The nearest integer is one of the two next to it. -/
theorem nearest_eq_or (x : ℚ) : nearest x = ⌊x⌋ ∨ nearest x = ⌊x⌋ + 1 := by
  unfold nearest
  split_ifs <;> simp

/-- A number of up to fifty-three bits has no bit after the last of them. -/
theorem exponent_le {m e : ℤ} (hne : m ≠ 0) (hm : |m| < 2 ^ 53) (he : -1074 ≤ e) :
    exponent (m * 2 ^ e) ≤ e := by
  refine max_le ?_ he
  have hstep : (0 : ℚ) < 2 ^ e := zpow_pos two_pos _
  have hlt : |(m : ℚ) * 2 ^ e| < ((2 : ℕ) : ℚ) ^ (53 + e) := by
    have hmlt : |(m : ℚ)| < 2 ^ (53 : ℤ) := by exact_mod_cast hm
    rw [abs_mul, abs_of_pos hstep, Nat.cast_ofNat, zpow_add₀ two_ne_zero]
    exact mul_lt_mul_of_pos_right hmlt hstep
  have hlog := (Int.lt_zpow_iff_log_lt (by norm_num)
    (abs_pos.mpr (mul_ne_zero (by exact_mod_cast hne) hstep.ne'))).mp hlt
  omega

theorem round_zero : round 0 = 0 := by
  rw [round, zero_div, show nearest 0 = 0 from nearest_intCast 0, Int.cast_zero, zero_mul]

/-- **A number of up to fifty-three bits is a double.** -/
theorem round_mul_two_zpow {m e : ℤ} (hm : |m| < 2 ^ 53) (he : -1074 ≤ e) :
    round (m * 2 ^ e) = m * 2 ^ e := by
  rcases eq_or_ne m 0 with rfl | hne
  · rw [Int.cast_zero, zero_mul, round_zero]
  obtain ⟨k, hk⟩ := Int.eq_ofNat_of_zero_le (sub_nonneg.mpr (exponent_le hne hm he))
  have hstep : (2 : ℚ) ^ exponent (m * 2 ^ e) ≠ 0 := zpow_ne_zero _ two_ne_zero
  have hscaled : (m : ℚ) * 2 ^ e / 2 ^ exponent (m * 2 ^ e) = ((m * 2 ^ k : ℤ) : ℚ) := by
    rw [mul_div_assoc, ← zpow_sub₀ two_ne_zero, hk]
    push_cast
    rw [zpow_natCast]
  rw [round, hscaled, nearest_intCast, ← hscaled, div_mul_cancel₀ _ hstep]

/-- **Integers of up to fifty-three bits are doubles.** -/
theorem round_intCast {n : ℤ} (h : |n| < 2 ^ 53) : round n = n := by
  simpa using round_mul_two_zpow (e := 0) h (by norm_num)

/-- **Whole numbers are rounded to whole numbers.** -/
theorem exists_round_intCast (n : ℤ) : ∃ m : ℤ, round n = m := by
  by_cases hn : |n| < 2 ^ 53
  · exact ⟨n, round_intCast hn⟩
  · have hpos : 0 ≤ exponent n := by
      have habs : (0 : ℚ) < |(n : ℚ)| := abs_pos.mpr fun h0 => hn (by
        rw [Int.cast_eq_zero.mp h0]; norm_num)
      have hge : ((2 : ℕ) : ℚ) ^ (53 : ℤ) ≤ |(n : ℚ)| := by exact_mod_cast not_lt.mp hn
      have hlog := (Int.zpow_le_iff_le_log (by norm_num) habs).mp hge
      exact le_max_of_le_left (by omega)
    obtain ⟨k, hk⟩ := Int.eq_ofNat_of_zero_le hpos
    refine ⟨nearest (n / 2 ^ exponent n) * 2 ^ k, ?_⟩
    rw [round, hk]
    push_cast
    rfl

/-- **Below `2 ^ 53`, rounding moves a number by one at most.** -/
theorem abs_round_sub_le {x : ℚ} (h : |x| < 2 ^ 53) : |round x - x| ≤ 1 := by
  have hstep : (0 : ℚ) < 2 ^ exponent x := zpow_pos two_pos _
  have hexponent : exponent x ≤ 0 := by
    refine max_le ?_ (by norm_num)
    rcases eq_or_ne x 0 with rfl | hx
    · simp
    · have hlt : |x| < ((2 : ℕ) : ℚ) ^ (53 : ℤ) := by exact_mod_cast h
      have hlog := (Int.lt_zpow_iff_log_lt (by norm_num) (abs_pos.mpr hx)).mp hlt
      omega
  have hnearest : |(nearest (x / 2 ^ exponent x) : ℚ) - x / 2 ^ exponent x| ≤ 1 := by
    have hle := Int.floor_le (x / 2 ^ exponent x)
    have hlt := Int.lt_floor_add_one (x / 2 ^ exponent x)
    rw [abs_le]
    rcases nearest_eq_or (x / 2 ^ exponent x) with hor | hor <;> rw [hor] <;> push_cast <;>
      constructor <;> linarith
  calc |round x - x| = |(nearest (x / 2 ^ exponent x) : ℚ) - x / 2 ^ exponent x| *
        2 ^ exponent x := by
        rw [round, ← abs_of_pos hstep, ← abs_mul, abs_of_pos hstep, sub_mul,
          div_mul_cancel₀ _ hstep.ne']
    _ ≤ 1 * 1 := mul_le_mul hnearest (zpow_le_one_of_nonpos₀ one_le_two hexponent) hstep.le
        zero_le_one
    _ = 1 := one_mul 1

/-- What is rounded has up to fifty-three bits. -/
theorem exists_round (x : ℚ) :
    ∃ m e : ℤ, |m| < 2 ^ 53 ∧ -1074 ≤ e ∧ round x = m * 2 ^ e := by
  have hstep : (0 : ℚ) < 2 ^ exponent x := zpow_pos two_pos _
  have hscaled : |x / 2 ^ exponent x| < 2 ^ 53 := by
    have hlog := Int.lt_zpow_succ_log_self (b := 2) (by norm_num) |x|
    have hle : ((2 : ℕ) : ℚ) ^ (Int.log 2 |x| + 1) ≤ 2 ^ (53 + exponent x) := by
      rw [Nat.cast_ofNat]
      refine zpow_le_zpow_right₀ (by norm_num) ?_
      have := le_max_left (Int.log 2 |x| - 52) (-1074)
      rw [exponent]
      omega
    rw [abs_div, abs_of_pos hstep, div_lt_iff₀ hstep]
    refine hlog.trans_le (hle.trans_eq ?_)
    rw [zpow_add₀ two_ne_zero]
    norm_num
  obtain ⟨hlow, hhigh⟩ := abs_lt.mp hscaled
  have hfloor : -2 ^ 53 ≤ ⌊x / 2 ^ exponent x⌋ := Int.le_floor.mpr (by exact_mod_cast hlow.le)
  have hfloor' : ⌊x / 2 ^ exponent x⌋ < 2 ^ 53 := Int.floor_lt.mpr (by exact_mod_cast hhigh)
  have hexponent : -1074 ≤ exponent x := le_max_right _ _
  by_cases hm : |nearest (x / 2 ^ exponent x)| < 2 ^ 53
  · exact ⟨_, _, hm, hexponent, rfl⟩
  -- the bits are all ones and carry
  · have hm : nearest (x / 2 ^ exponent x) = 2 ^ 53 ∨ nearest (x / 2 ^ exponent x) = -2 ^ 53 := by
      have hor := nearest_eq_or (x / 2 ^ exponent x)
      rw [abs_lt] at hm
      omega
    have hcarry : (2 : ℚ) ^ (exponent x + 1) = 2 ^ exponent x * 2 := zpow_add_one₀ two_ne_zero _
    rcases hm with hm | hm
    · refine ⟨2 ^ 52, exponent x + 1, by norm_num, by omega, ?_⟩
      rw [round, hm, hcarry]
      push_cast
      ring
    · refine ⟨-2 ^ 52, exponent x + 1, by norm_num, by omega, ?_⟩
      rw [round, hm, hcarry]
      push_cast
      ring

/-- The powers of ten up to the twenty-second are doubles. -/
theorem round_ten_zpow {n : ℤ} (h0 : 0 ≤ n) (hn : n ≤ 22) : round (10 ^ n) = 10 ^ n := by
  obtain ⟨k, rfl⟩ := Int.eq_ofNat_of_zero_le h0
  have hsplit : ((10 : ℚ) ^ (k : ℤ)) = ((5 ^ k : ℤ) : ℚ) * 2 ^ (k : ℤ) := by
    push_cast
    rw [zpow_natCast, zpow_natCast, ← mul_pow]
    norm_num
  have hfive : |((5 : ℤ) ^ k)| < 2 ^ 53 := by
    rw [abs_of_nonneg (by positivity)]
    have hle : (5 : ℤ) ^ k ≤ 5 ^ 22 := pow_le_pow_right₀ (by norm_num) (by omega)
    exact hle.trans_lt (by norm_num)
  rw [hsplit, round_mul_two_zpow hfive (by omega)]

end Doubles
