import Swyft.ClPool.PriceMath
import Swyft.Lib.Quotients
import Mathlib.Algebra.Ring.Parity
import Mathlib.Data.Nat.Prime.Basic

/-!
# Which way the amounts are rounded

`get_amount_0_delta` and `get_amount_1_delta` against the exact amounts. Rounded up, an amount is
charged; rounded down, it is paid out; so both favour the pool as long as one is at least and the
other at most the exact one.

The second divides by `Q96` and errs only when its numerator is cut off at the largest word. The
first divides by the larger price in whole units of `Q96`, at least one, times the smaller. Below
`Q96` that denominator is too large, and the amount too small; above it what is left of the larger
price beyond the whole units is dropped, and the amount too large.

## Main definitions

* `exactAmount0`, `exactAmount1` — the exact amounts
* `RoundsSafely` — the price moves on which no rounding goes against the pool

## Main results

* `rounding_favours_pool_iff` — both amounts favour the pool exactly on these moves
-/

namespace Swyft.ClPool

open Checked

/-- The exact amount of token 0 between two prices. -/
def exactAmount0 (sqrtA sqrtB liquidity : ℕ) : ℚ :=
  liquidity * Q96 * |(sqrtB : ℚ) - sqrtA| / (sqrtA * sqrtB)

/-- The exact amount of token 1 between two prices. -/
def exactAmount1 (sqrtA sqrtB liquidity : ℕ) : ℚ :=
  liquidity * |(sqrtB : ℚ) - sqrtA| / Q96

/-- No rounding of an amount goes against the pool. -/
structure RoundsForPool (sqrtA sqrtB liquidity : ℕ) : Prop where
  up0 : exactAmount0 sqrtA sqrtB liquidity ≤ getAmount0Delta sqrtA sqrtB liquidity true
  down0 : (getAmount0Delta sqrtA sqrtB liquidity false : ℚ) ≤ exactAmount0 sqrtA sqrtB liquidity
  up1 : exactAmount1 sqrtA sqrtB liquidity ≤ getAmount1Delta sqrtA sqrtB liquidity true
  down1 : (getAmount1Delta sqrtA sqrtB liquidity false : ℚ) ≤ exactAmount1 sqrtA sqrtB liquidity

/-! ### The parts of the quotients -/

/-- `liquidity * (upper - lower)`, whatever its size. -/
def moved (sqrtA sqrtB liquidity : ℕ) : ℕ := liquidity * (max sqrtA sqrtB - min sqrtA sqrtB)

/-- The same, cut off at the largest word: the `numerator` of both functions. -/
def numerator (sqrtA sqrtB liquidity : ℕ) : ℕ :=
  satMul 128 liquidity (max sqrtA sqrtB - min sqrtA sqrtB)

/-- The `denominator` of `get_amount_0_delta`. -/
def denominator (sqrtA sqrtB : ℕ) : ℕ :=
  satMul 128 (max (max sqrtA sqrtB / Q96) 1) (min sqrtA sqrtB)

/-- The exact denominator, in units of `1 / Q96`. -/
def priceProduct (sqrtA sqrtB : ℕ) : ℕ := max sqrtA sqrtB * min sqrtA sqrtB

/-- The moves on which no rounding goes against the pool. -/
structure RoundsSafely (sqrtA sqrtB liquidity : ℕ) : Prop where
  /-- The numerator is cut off by at most one. -/
  fits : moved sqrtA sqrtB liquidity ≤ 2 ^ 128
  /-- Below `Q96` something is rounded up, and it makes up for the excess of the denominator. -/
  below : max sqrtA sqrtB < Q96 →
    numerator sqrtA sqrtB liquidity % denominator sqrtA sqrtB ≠ 0 ∧
      numerator sqrtA sqrtB liquidity / denominator sqrtA sqrtB
          * (denominator sqrtA sqrtB * Q96 - priceProduct sqrtA sqrtB)
        + (numerator sqrtA sqrtB liquidity % denominator sqrtA sqrtB
            + (moved sqrtA sqrtB liquidity - numerator sqrtA sqrtB liquidity)) * Q96
        ≤ priceProduct sqrtA sqrtB
  /-- From `Q96` on, what rounding down gives away makes up for what the denominator lacks. -/
  above : Q96 ≤ max sqrtA sqrtB →
    numerator sqrtA sqrtB liquidity / denominator sqrtA sqrtB
        * (priceProduct sqrtA sqrtB - denominator sqrtA sqrtB * Q96)
      ≤ (numerator sqrtA sqrtB liquidity % denominator sqrtA sqrtB
          + (moved sqrtA sqrtB liquidity - numerator sqrtA sqrtB liquidity)) * Q96

/-! ### The amounts as quotients -/

section Quotients

variable {a b l : ℕ}

theorem abs_price_sub : |(b : ℚ) - a| = ((max a b - min a b : ℕ) : ℚ) := by
  rcases Nat.le_total a b with h | h
  · rw [max_eq_right h, min_eq_left h, Nat.cast_sub h]
    exact abs_of_nonneg (sub_nonneg.mpr (by exact_mod_cast h))
  · rw [max_eq_left h, min_eq_right h, Nat.cast_sub h, abs_sub_comm]
    exact abs_of_nonneg (sub_nonneg.mpr (by exact_mod_cast h))

theorem exactAmount0_eq :
    exactAmount0 a b l = ((moved a b l * Q96 : ℕ) : ℚ) / (priceProduct a b : ℕ) := by
  rw [exactAmount0, abs_price_sub, moved, priceProduct, max_mul_min]
  push_cast
  ring

theorem exactAmount1_eq : exactAmount1 a b l = (moved a b l : ℚ) / (Q96 : ℕ) := by
  rw [exactAmount1, abs_price_sub, moved]
  push_cast
  ring

theorem getAmount0Delta_eq (hne : a ≠ b) (hl : l ≠ 0) (ha : 0 < a) (hb : 0 < b)
    (roundUp : Bool) :
    getAmount0Delta a b l roundUp = roundQuotient (numerator a b l) (denominator a b) roundUp := by
  have hlower : min a b ≠ 0 := (lt_min ha hb).ne'
  rw [getAmount0Delta, if_neg (not_or.mpr ⟨hne, hl⟩), if_neg hlower]
  rfl

theorem getAmount1Delta_eq (hne : a ≠ b) (hl : l ≠ 0) (roundUp : Bool) :
    getAmount1Delta a b l roundUp = roundQuotient (numerator a b l) Q96 roundUp := by
  rw [getAmount1Delta, if_neg (not_or.mpr ⟨hne, hl⟩)]
  rfl

/-- Nothing is moved: both amounts are exactly zero. -/
theorem roundsForPool_of_none (h : a = b ∨ l = 0) : RoundsForPool a b l := by
  have h0 : ∀ roundUp, getAmount0Delta a b l roundUp = 0 := fun _ => if_pos h
  have h1 : ∀ roundUp, getAmount1Delta a b l roundUp = 0 := fun _ => if_pos h
  have hmoved : moved a b l = 0 := by
    rcases h with rfl | rfl
    · simp [moved]
    · simp [moved]
  constructor <;> simp [exactAmount0_eq, exactAmount1_eq, h0, h1, hmoved]

theorem roundQuotient_false (n d : ℕ) : roundQuotient n d false = n / d := by
  simp [roundQuotient]

/-- Rounding up adds one to a quotient that leaves a remainder. -/
theorem roundQuotient_true {n d : ℕ} (hn : n < 2 ^ 128) :
    roundQuotient n d true = n / d + if 0 < n % d then 1 else 0 := by
  simp only [roundQuotient, true_and]
  split
  case isTrue hrem =>
    have hd : 2 ≤ d ∨ d = 0 := by
      by_contra hd
      obtain rfl : d = 1 := by omega
      rw [Nat.mod_one] at hrem
      omega
    have hhalf : n / d ≤ n / 2 := by
      rcases hd with hd | rfl
      · exact Nat.div_le_div_left hd (by decide)
      · rw [Nat.div_zero]; exact Nat.zero_le _
    simp only [satAdd]
    omega
  case isFalse => rfl

theorem numerator_lt (a b l : ℕ) : numerator a b l < 2 ^ 128 := by
  simp only [numerator, satMul]
  omega

theorem numerator_le (a b l : ℕ) : numerator a b l ≤ moved a b l := satMul_le _ _ _

theorem numerator_of_fits (h : moved a b l ≤ 2 ^ 128) :
    numerator a b l = moved a b l ∨ (moved a b l = 2 ^ 128 ∧ numerator a b l = 2 ^ 128 - 1) := by
  simp only [numerator, satMul, moved] at h ⊢
  omega

/-! ### Token 1 -/

/-- Rounding down never goes against the pool. -/
theorem amount1_down (hne : a ≠ b) (hl : l ≠ 0) :
    (getAmount1Delta a b l false : ℚ) ≤ exactAmount1 a b l := by
  rw [getAmount1Delta_eq hne hl, roundQuotient_false, exactAmount1_eq,
    Quotients.cast_le_div_iff Q96_pos]
  exact le_trans (Nat.div_mul_le_self _ _) (numerator_le a b l)

/-- Rounding up does not as long as the numerator is hardly cut off. -/
theorem amount1_up_iff (hne : a ≠ b) (hl : l ≠ 0) :
    exactAmount1 a b l ≤ getAmount1Delta a b l true ↔ moved a b l ≤ 2 ^ 128 := by
  rw [getAmount1Delta_eq hne hl, exactAmount1_eq, Quotients.div_le_cast_iff Q96_pos,
    roundQuotient_true (numerator_lt a b l)]
  have hlt := numerator_lt a b l
  have hcut : numerator a b l = min (moved a b l) (2 ^ 128 - 1) := rfl
  rw [Q96]
  split <;> omega

/-! ### Token 0 -/

theorem denominator_le (a b : ℕ) :
    denominator a b ≤ max (max a b / Q96) 1 * min a b := satMul_le _ _ _

theorem denominator_pos (ha : 0 < a) (hb : 0 < b) : 0 < denominator a b := by
  have hpos : 0 < max (max a b / Q96) 1 * min a b :=
    Nat.mul_pos (lt_max_of_lt_right Nat.one_pos) (lt_min ha hb)
  simp only [denominator, satMul]
  omega

/-- Below `Q96` the denominator is the smaller price. -/
theorem denominator_below (h : max a b < Q96) : denominator a b = min a b := by
  have hunit : max (max a b / Q96) 1 = 1 := by rw [Nat.div_eq_of_lt h]; rfl
  have hle : min a b ≤ max a b := min_le_max
  rw [denominator, hunit, satMul_of_lt, Nat.one_mul]
  rw [Nat.one_mul]
  exact lt_of_le_of_lt hle (lt_trans h (by decide))

/-- Below `Q96` the denominator is at least the exact one. -/
theorem priceProduct_le_below (h : max a b < Q96) :
    priceProduct a b ≤ denominator a b * Q96 := by
  rw [denominator_below h, priceProduct, Nat.mul_comm]
  exact Nat.mul_le_mul_left _ h.le

/-- From `Q96` on it is at most the exact one. -/
theorem denominator_le_above (h : Q96 ≤ max a b) :
    denominator a b * Q96 ≤ priceProduct a b := by
  have hunit : max (max a b / Q96) 1 = max a b / Q96 :=
    max_eq_left (Nat.div_pos h Q96_pos)
  calc denominator a b * Q96 ≤ max a b / Q96 * min a b * Q96 :=
        Nat.mul_le_mul_right _ (hunit ▸ denominator_le a b)
    _ = max a b / Q96 * Q96 * min a b := by ring
    _ ≤ max a b * min a b := Nat.mul_le_mul_right _ (Nat.div_mul_le_self _ _)

theorem amount0_down_iff (hne : a ≠ b) (hl : l ≠ 0) (ha : 0 < a) (hb : 0 < b) :
    (getAmount0Delta a b l false : ℚ) ≤ exactAmount0 a b l ↔
      numerator a b l / denominator a b * priceProduct a b ≤ moved a b l * Q96 := by
  rw [getAmount0Delta_eq hne hl ha hb, roundQuotient_false, exactAmount0_eq]
  exact Quotients.cast_le_div_iff (Nat.mul_pos (lt_max_of_lt_left ha) (lt_min ha hb))

theorem amount0_up_iff (hne : a ≠ b) (hl : l ≠ 0) (ha : 0 < a) (hb : 0 < b) :
    exactAmount0 a b l ≤ getAmount0Delta a b l true ↔
      moved a b l * Q96 ≤ (numerator a b l / denominator a b
        + if 0 < numerator a b l % denominator a b then 1 else 0) * priceProduct a b := by
  rw [getAmount0Delta_eq hne hl ha hb, roundQuotient_true (numerator_lt a b l), exactAmount0_eq]
  exact Quotients.div_le_cast_iff (Nat.mul_pos (lt_max_of_lt_left ha) (lt_min ha hb))

/-- Below `Q96` rounding down never goes against the pool. -/
theorem down_below (h : max a b < Q96) :
    numerator a b l / denominator a b * priceProduct a b ≤ moved a b l * Q96 :=
  calc numerator a b l / denominator a b * priceProduct a b
      ≤ numerator a b l / denominator a b * (denominator a b * Q96) :=
        Nat.mul_le_mul_left _ (priceProduct_le_below h)
    _ = numerator a b l / denominator a b * denominator a b * Q96 := (Nat.mul_assoc _ _ _).symm
    _ ≤ moved a b l * Q96 :=
        Nat.mul_le_mul_right _ (le_trans (Nat.div_mul_le_self _ _) (numerator_le a b l))

theorem moved_pos (hne : a ≠ b) (hl : l ≠ 0) : 0 < moved a b l := by
  refine Nat.mul_pos (Nat.pos_of_ne_zero hl) ?_
  have := lt_or_gt_of_ne hne
  omega

/-- Below `Q96` an amount that needs no rounding is too small. -/
theorem up_below_fails (hne : a ≠ b) (hl : l ≠ 0) (h : max a b < Q96)
    (hrem : numerator a b l % denominator a b = 0) :
    ¬ moved a b l * Q96 ≤ numerator a b l / denominator a b * priceProduct a b := by
  have hquot := Nat.div_mul_cancel (Nat.dvd_of_mod_eq_zero hrem)
  have hpos : 0 < moved a b l := moved_pos hne hl
  rw [not_le]
  calc numerator a b l / denominator a b * priceProduct a b
      = numerator a b l / denominator a b * denominator a b * max a b := by
        rw [priceProduct, ← denominator_below h]
        ring
    _ ≤ moved a b l * max a b := by
        rw [hquot]
        exact Nat.mul_le_mul_right _ (numerator_le a b l)
    _ < moved a b l * Q96 := Nat.mul_lt_mul_of_pos_left h hpos

theorem up_below_iff (hne : a ≠ b) (hl : l ≠ 0) (h : max a b < Q96) :
    moved a b l * Q96 ≤ (numerator a b l / denominator a b
        + if 0 < numerator a b l % denominator a b then 1 else 0) * priceProduct a b ↔
      numerator a b l % denominator a b ≠ 0 ∧
        numerator a b l / denominator a b * (denominator a b * Q96 - priceProduct a b)
          + (numerator a b l % denominator a b + (moved a b l - numerator a b l)) * Q96
          ≤ priceProduct a b := by
  by_cases hrem : numerator a b l % denominator a b = 0
  · rw [if_neg (by omega), Nat.add_zero]
    exact iff_of_false (up_below_fails hne hl h hrem) fun hcond => hcond.1 hrem
  · rw [if_pos (Nat.pos_of_ne_zero hrem),
      Quotients.le_ceil_mul_iff (numerator_le a b l) (priceProduct_le_below h)]
    exact (and_iff_right hrem).symm

/-- A numerator that is cut off by one leaves a remainder, unless the larger price is off the whole
units by more than the cut. -/
theorem cut_off (hl128 : l < 2 ^ 128) (h : Q96 ≤ max a b)
    (hmax : max a b < 2 ^ 128) (hmoved : moved a b l = 2 ^ 128)
    (hrem : (2 ^ 128 - 1) % denominator a b = 0) :
    2 ^ 128 * Q96 ≤ (2 ^ 128 - 1) / denominator a b * priceProduct a b := by
  have hquot := Nat.div_mul_cancel (Nat.dvd_of_mod_eq_zero hrem)
  have hunits := Nat.div_add_mod (max a b) Q96
  set q := (2 ^ 128 - 1) / denominator a b with hq
  set k := max a b / Q96 with hk
  have hkpos : 0 < k := Nat.div_pos h Q96_pos
  have hk32 : k < 2 ^ 32 := by
    rw [hk, Nat.div_lt_iff_lt_mul Q96_pos]
    exact lt_of_lt_of_le hmax (by decide)
  have hden : denominator a b = min (k * min a b) (2 ^ 128 - 1) := by
    rw [denominator, ← hk, max_eq_left hkpos]
    rfl
  by_cases hsat : k * min a b < 2 ^ 128
  case neg =>
    have hone : q = 1 := by
      rw [hq, hden, min_eq_right (by omega)]
      exact Nat.div_self (by decide)
    rw [hone, Nat.one_mul, priceProduct]
    calc 2 ^ 128 * Q96 ≤ k * min a b * Q96 := Nat.mul_le_mul_right _ (by omega)
      _ = Q96 * k * min a b := by ring
      _ ≤ max a b * min a b := Nat.mul_le_mul_right _ (by omega)
  case pos =>
    rw [min_eq_left (by omega)] at hden
    rw [hden] at hquot
    have hodd : Odd (q * (k * min a b)) := by
      rw [hquot]
      decide
    -- the price is not a whole number of units: else it is even, the smaller price is odd, and an
    -- odd difference divides `2 ^ 128` only if it is one
    have hfrac : max a b % Q96 ≠ 0 := by
      intro hfrac
      have hlower : Odd (min a b) := (Nat.odd_mul.mp (Nat.odd_mul.mp hodd).2).2
      have hupper : Even (max a b) := by
        rw [← hunits, hfrac, Nat.add_zero]
        exact (show Even Q96 by decide).mul_right k
      have hdiff : Odd (max a b - min a b) := Nat.Even.sub_odd min_le_max hupper hlower
      have hcoprime : Nat.Coprime (max a b - min a b) (2 ^ 128) :=
        (Nat.coprime_two_right.mpr hdiff).pow_right 128
      have hone : max a b - min a b = 1 :=
        Nat.Coprime.eq_one_of_dvd hcoprime ⟨l, by rw [← hmoved, moved, Nat.mul_comm]⟩
      rw [moved, hone, Nat.mul_one] at hmoved
      omega
    have hpay : Q96 ≤ q * min a b := by
      by_contra hlt
      have hle : q * min a b * k ≤ (Q96 - 1) * (2 ^ 32 - 1) :=
        Nat.mul_le_mul (by omega) (by omega)
      have heq : q * min a b * k = 2 ^ 128 - 1 := by rw [← hquot]; ring
      rw [heq, Q96] at hle
      exact absurd hle (by decide)
    calc 2 ^ 128 * Q96 = (2 ^ 128 - 1) * Q96 + Q96 := by decide
      _ ≤ q * (k * min a b) * Q96 + q * min a b := by rw [hquot]; omega
      _ = q * ((Q96 * k + 1) * min a b) := by ring
      _ ≤ q * (max a b * min a b) :=
        Nat.mul_le_mul_left _ (Nat.mul_le_mul_right _ (by omega))

/-- From `Q96` on, rounding up never goes against the pool while the numerator is hardly cut
off. -/
theorem up_above (ha : 0 < a) (hb : 0 < b) (hl128 : l < 2 ^ 128) (h : Q96 ≤ max a b)
    (hmax : max a b < 2 ^ 128) (hfits : moved a b l ≤ 2 ^ 128) :
    moved a b l * Q96 ≤ (numerator a b l / denominator a b
      + if 0 < numerator a b l % denominator a b then 1 else 0) * priceProduct a b := by
  have hle := denominator_le_above h
  have hdiv := Nat.div_add_mod (numerator a b l) (denominator a b)
  have hmod := Nat.mod_lt (numerator a b l) (denominator_pos ha hb)
  by_cases hrem : numerator a b l % denominator a b = 0
  · rw [if_neg (by omega), Nat.add_zero]
    rcases numerator_of_fits hfits with hnum | ⟨hmoved, hnum⟩
    · have hquot := Nat.div_mul_cancel (Nat.dvd_of_mod_eq_zero hrem)
      calc moved a b l * Q96
          = numerator a b l / denominator a b * denominator a b * Q96 := by rw [hquot, hnum]
        _ = numerator a b l / denominator a b * (denominator a b * Q96) := Nat.mul_assoc _ _ _
        _ ≤ _ := Nat.mul_le_mul_left _ hle
    · rw [hmoved, hnum]
      exact cut_off hl128 h hmax hmoved (hnum ▸ hrem)
  · rw [if_pos (Nat.pos_of_ne_zero hrem)]
    have hnext : moved a b l ≤ (numerator a b l / denominator a b + 1) * denominator a b := by
      have hcut : moved a b l ≤ numerator a b l + 1 := by
        rcases numerator_of_fits hfits with hnum | ⟨hmoved, hnum⟩ <;> omega
      rw [Nat.add_mul, Nat.one_mul, Nat.mul_comm]
      omega
    calc moved a b l * Q96
        ≤ (numerator a b l / denominator a b + 1) * denominator a b * Q96 :=
          Nat.mul_le_mul_right _ hnext
      _ = (numerator a b l / denominator a b + 1) * (denominator a b * Q96) := Nat.mul_assoc _ _ _
      _ ≤ _ := Nat.mul_le_mul_left _ hle

end Quotients

/-! ### Both tokens -/

/-- **Rounding favours the pool exactly on the moves of `RoundsSafely`**, and where nothing is
moved. -/
theorem rounding_favours_pool_iff (sqrtA sqrtB liquidity : U128) (ha : 0 < sqrtA.val)
    (hb : 0 < sqrtB.val) :
    RoundsForPool sqrtA sqrtB liquidity ↔
      sqrtA = sqrtB ∨ liquidity = 0 ∨ RoundsSafely sqrtA sqrtB liquidity := by
  by_cases hnone : sqrtA.val = sqrtB.val ∨ liquidity.val = 0
  · refine iff_of_true (roundsForPool_of_none hnone) ?_
    rcases hnone with h | h
    · exact .inl (Fin.ext h)
    · exact .inr (.inl (Fin.ext h))
  · obtain ⟨hne, hl⟩ := not_or.mp hnone
    have hmax : max sqrtA.val sqrtB.val < 2 ^ 128 := max_lt sqrtA.isLt sqrtB.isLt
    have hmoves : (sqrtA = sqrtB ∨ liquidity = 0 ∨ RoundsSafely sqrtA sqrtB liquidity)
        ↔ RoundsSafely sqrtA sqrtB liquidity := by
      constructor
      · rintro (rfl | rfl | h)
        · exact absurd rfl hne
        · exact absurd rfl hl
        · exact h
      · exact fun h => .inr (.inr h)
    rw [hmoves]
    constructor
    · intro h
      refine ⟨(amount1_up_iff hne hl).mp h.up1, fun hbelow => ?_, fun habove => ?_⟩
      · exact (up_below_iff hne hl hbelow).mp ((amount0_up_iff hne hl ha hb).mp h.up0)
      · exact (Quotients.floor_mul_le_iff (numerator_le _ _ _) (denominator_le_above habove)).mp
          ((amount0_down_iff hne hl ha hb).mp h.down0)
    · intro h
      refine ⟨(amount0_up_iff hne hl ha hb).mpr ?_, (amount0_down_iff hne hl ha hb).mpr ?_,
        (amount1_up_iff hne hl).mpr h.fits, amount1_down hne hl⟩
      · rcases lt_or_ge (max sqrtA.val sqrtB.val) Q96 with hbelow | habove
        · exact (up_below_iff hne hl hbelow).mpr (h.below hbelow)
        · exact up_above ha hb liquidity.isLt habove hmax h.fits
      · rcases lt_or_ge (max sqrtA.val sqrtB.val) Q96 with hbelow | habove
        · exact down_below hbelow
        · exact (Quotients.floor_mul_le_iff (numerator_le _ _ _) (denominator_le_above habove)).mpr
            (h.above habove)

/-- From the unit price to twice that, nothing is dropped. -/
theorem rounding_favours_pool_at_unit : RoundsForPool (2 ^ 96) (2 ^ 97) 1001 := by
  have h := rounding_favours_pool_iff ⟨2 ^ 96, by decide⟩ ⟨2 ^ 97, by decide⟩ ⟨1001, by decide⟩
    (by decide) (by decide)
  refine h.mpr (.inr (.inr ⟨?_, ?_, ?_⟩))
  · decide
  · decide
  · decide

/-- **A charge below the exact amount.** From half the unit price to a quarter of it, 1000 of
liquidity is worth 2000 of token 0, and the pool asks for 1000. -/
theorem charge_below_exact :
    getAmount0Delta (2 ^ 95) (2 ^ 94) 1000 true = 1000 ∧
      exactAmount0 (2 ^ 95) (2 ^ 94) 1000 = 2000 ∧
      ¬ RoundsForPool (2 ^ 95) (2 ^ 94) 1000 := by
  have hcharge : getAmount0Delta (2 ^ 95) (2 ^ 94) 1000 true = 1000 := by decide
  have hexact : exactAmount0 (2 ^ 95) (2 ^ 94) 1000 = 2000 := by
    have hmoved : moved (2 ^ 95) (2 ^ 94) 1000 * Q96 = 2000 * priceProduct (2 ^ 95) (2 ^ 94) := by
      decide
    rw [exactAmount0_eq, hmoved, Nat.cast_mul, mul_div_assoc, div_self (by norm_num [priceProduct])]
    norm_num
  refine ⟨hcharge, hexact, fun h => ?_⟩
  have hup := h.up0
  rw [hexact, hcharge] at hup
  norm_num at hup

end Swyft.ClPool
