import Swyft.PoolContract.TickSearch
import Swyft.Lib.Newton
import Swyft.Lib.Bisection
import Swyft.Lib.FixedPower

/-!
# The price model of the pool contract

`tick_to_sqrt_price` raises 1.0001 to the tick by repeated squaring at a scale of `10 ^ 12`,
rounding down and saturating on the way, and takes an integer square root; `sqrt_price_to_tick`
inverts it by bisection. The roundings lose far less than one tick is worth, so that prices rise
with the ticks, up to the tick where the power saturates.

## Main definitions

* `ratio` — 1.0001 to a power, as the contract computes it
* `root` — its square root
* `saturationTick` — the first tick whose power saturates

## Main results

* `encloses_ratio` — how far the power is from the exact one
* `tickToSqrtPrice_mono` — prices do not fall
* `sqrtPriceToTick_isGreatest` — the tick of a price is the greatest one at or below it
* `tickToSqrtPrice_lt_iff`, `sqrtPriceToTick_tickToSqrtPrice_iff` — where prices rise, and which
  ticks come back from their price
-/

namespace Swyft.PoolContract

open Checked FixedPower
open ClPool (Q96 minTick maxTick)

/-! ### The integer square root -/

/-- From at or above the root, the loop ends at the root. -/
theorem isqrtLoop_eq {n : ℕ} (hn : 0 < n) :
    ∀ {rounds x}, n.sqrt ≤ x → x ≤ n.sqrt + rounds →
      isqrtLoop n rounds x (Newton.step n x) = n.sqrt := by
  have hpos : 0 < n.sqrt := Nat.sqrt_pos.mpr hn
  intro rounds
  induction rounds with
  | zero =>
    intro x hge hle
    exact le_antisymm hle hge
  | succ rounds ih =>
    intro x hge hle
    have hstep := Newton.sqrt_le_step (n := n) (hpos.trans_le hge)
    rw [isqrtLoop]
    split
    case isTrue hlt => exact ih hstep (by omega)
    case isFalse hstop =>
      exact Newton.eq_sqrt_of_le_step (hpos.trans_le hge) hge (not_lt.mp hstop)

/-- `isqrt` is the integer square root. -/
theorem isqrt_eq (n : ℕ) : isqrt n = n.sqrt := by
  rw [isqrt]
  split
  case isTrue hzero => rw [hzero, Nat.sqrt_zero]
  case isFalse hne =>
    have hpos : 0 < n := Nat.pos_of_ne_zero hne
    have hfirst : (n + 1) / 2 = Newton.step n n := by rw [Newton.step, Nat.div_self hpos]
    rw [hfirst]
    exact isqrtLoop_eq hpos (Nat.sqrt_le_self n) (Nat.le_add_left _ _)

/-! ### The power -/

/-- The largest value of a product at the scale. -/
def top : ℕ := u128Max / scale

/-- `1.0001 ^ n`, as the loop of `tick_to_sqrt_price` computes it. -/
def ratio (n : ℕ) : ℕ := powLoop 64 scale (10001 * scale / 10000) n

/-- The loop is square and multiply. -/
theorem powLoop_eq : ∀ rounds result base exp,
    powLoop rounds result base exp = power (mulCapped u128Max scale) rounds result base exp := by
  intro rounds
  induction rounds with
  | zero => exact fun _ _ _ => rfl
  | succ rounds ih =>
    intro result base exp
    rw [powLoop, power]
    split
    · rfl
    · exact ih _ _ _

/-- The base the contract works with, and the one its roundings leave of it. -/
def tickRatio : ℚ := 10001 / 10000

def keptRatio : ℚ := tickRatio * kept scale

theorem encloses_ratio {n : ℕ} (hn : n < 2 ^ 64) :
    Encloses u128Max scale tickRatio keptRatio 1 n (ratio n) := by
  have hbase : Encloses u128Max scale tickRatio keptRatio (kept scale) 1
      (10001 * scale / 10000) := by
    refine ⟨by decide, by decide, ?_, .inr ?_⟩
    · norm_num [scale, tickRatio]
    · norm_num [scale, tickRatio, keptRatio, kept]
  rw [ratio, powLoop_eq]
  refine encloses_power (by decide) (by decide) ?_ ?_ hbase hn
  · norm_num [tickRatio]
  · norm_num [keptRatio, tickRatio, kept, scale]

theorem scale_le_ratio {n : ℕ} (hn : n < 2 ^ 64) : scale ≤ ratio n := (encloses_ratio hn).unit

theorem ratio_le_top {n : ℕ} (hn : n < 2 ^ 64) : ratio n ≤ top := (encloses_ratio hn).le_top

/-- Over a million factors, the roundings lose less than a tenth of one factor. -/
theorem tickRatio_pow_le {n : ℕ} (hn : n < 1000000) :
    (1 + 9 / 100000) * tickRatio ^ n ≤ keptRatio ^ (n + 1) := by
  have hkept : 1 - 1 / 1000000 ≤ kept scale ^ (n + 1) := by
    refine le_trans ?_ (one_sub_le_kept_pow (by decide) (n + 1))
    have hn : ((n + 1 : ℕ) : ℚ) ≤ 1000000 := by exact_mod_cast hn
    have hloss : ((n + 1 : ℕ) : ℚ) / scale ≤ 1 / 1000000 := by
      rw [div_le_iff₀ (by norm_num [scale])]
      exact hn.trans (by norm_num [scale])
    linarith
  have hpow : (0 : ℚ) ≤ tickRatio ^ n := by
    rw [tickRatio]
    positivity
  calc (1 + 9 / 100000) * tickRatio ^ n ≤ tickRatio * (1 - 1 / 1000000) * tickRatio ^ n := by
        gcongr
        norm_num [tickRatio]
    _ ≤ tickRatio * kept scale ^ (n + 1) * tickRatio ^ n := by
        gcongr
        norm_num [tickRatio]
    _ = keptRatio ^ (n + 1) := by
        rw [keptRatio, mul_pow, pow_succ]
        ring

/-- **Another tick is worth more than the roundings**, until the power saturates. -/
theorem ratio_step {n : ℕ} (hn : n < 1000000) :
    ratio (n + 1) = top ∨ (1 + 9 / 100000) * (ratio n : ℚ) ≤ ratio (n + 1) := by
  have hfits : (1000000 : ℕ) < 2 ^ 64 := by decide
  refine (encloses_ratio (n := n + 1) (by omega)).lower.imp_right fun hlow => ?_
  calc (1 + 9 / 100000) * (ratio n : ℚ) ≤ (1 + 9 / 100000) * (scale * tickRatio ^ n) := by
        gcongr
        exact (encloses_ratio (n := n) (by omega)).upper
    _ = scale * ((1 + 9 / 100000) * tickRatio ^ n) := by ring
    _ ≤ scale * keptRatio ^ (n + 1) := by
        gcongr
        exact tickRatio_pow_le hn
    _ ≤ ratio (n + 1) := by rwa [mul_one] at hlow

theorem ratio_le_succ {n : ℕ} (hn : n < 1000000) : ratio n ≤ ratio (n + 1) := by
  rcases ratio_step hn with htop | hgrow
  · rw [htop]
    exact ratio_le_top (by omega)
  · have hpos : (0 : ℚ) ≤ ratio n := Nat.cast_nonneg _
    exact_mod_cast (by linarith : (ratio n : ℚ) ≤ ratio (n + 1))

/-- The powers do not fall. -/
theorem ratio_mono {n m : ℕ} (hnm : n ≤ m) (hm : m ≤ 1000000) : ratio n ≤ ratio m := by
  induction m, hnm using Nat.le_induction with
  | base => exact le_rfl
  | succ m _ ih => exact (ih (by omega)).trans (ratio_le_succ (by omega))

/-! ### Saturation -/

/-- The first tick whose power saturates. -/
def saturationTick : ℕ := 334625

theorem ratio_saturationTick : ratio saturationTick = top := by decide

theorem ratio_before : ratio (saturationTick - 1) = 340258582443000994850489594 := by
  decide

/-- From there on every power is at the top. -/
theorem ratio_of_ge {n : ℕ} (hn : saturationTick ≤ n) (hle : n ≤ 1000000) : ratio n = top := by
  refine le_antisymm (ratio_le_top (by omega)) ?_
  rw [← ratio_saturationTick]
  exact ratio_mono hn hle

/-- Before it none is. -/
theorem ratio_lt_top {n : ℕ} (hn : n < saturationTick) : ratio n < top := by
  refine lt_of_le_of_lt (ratio_mono (m := saturationTick - 1) (by omega) (by decide)) ?_
  rw [ratio_before]
  decide

/-! ### Roots -/

/-- `isqrt` of the power: `1.00005 ^ n`, at a scale of a million. -/
def root (n : ℕ) : ℕ := (ratio n).sqrt

theorem root_mono {n m : ℕ} (hnm : n ≤ m) (hm : m ≤ 1000000) : root n ≤ root m :=
  Nat.sqrt_le_sqrt (ratio_mono hnm hm)

/-- Growing a large enough number by a hundred-thousandth part grows its root. -/
theorem sqrt_lt_sqrt_of_grow {x y : ℕ} (hx : scale ≤ x) (hgrow : (1 + 9 / 100000) * (x : ℚ) ≤ y) :
    x.sqrt < y.sqrt := by
  have hsq := Nat.sqrt_le x
  have hmillion : 1000000 ≤ x.sqrt := Nat.le_sqrt.mpr (le_trans (by decide) hx)
  have hlinear : 1000000 * x.sqrt ≤ x := (Nat.mul_le_mul_right _ hmillion).trans hsq
  refine Nat.le_sqrt.mpr ?_
  have hsquare : ((x.sqrt + 1 : ℕ) : ℚ) * ((x.sqrt + 1 : ℕ) : ℚ) ≤ y := by
    have hsq : (x.sqrt : ℚ) * x.sqrt ≤ x := by exact_mod_cast hsq
    have hlinear : 1000000 * (x.sqrt : ℚ) ≤ x := by exact_mod_cast hlinear
    have hx : (1000000000000 : ℚ) ≤ x := by exact_mod_cast hx
    push_cast
    calc ((x.sqrt : ℚ) + 1) * (x.sqrt + 1) = x.sqrt * x.sqrt + 2 * x.sqrt + 1 := by ring
      _ ≤ (1 + 9 / 100000) * x := by linarith
      _ ≤ y := hgrow
  exact_mod_cast hsquare

/-- Before saturation every root is a new one. -/
theorem root_lt_succ {n : ℕ} (hn : n < saturationTick) : root n < root (n + 1) := by
  have hsat : saturationTick = 334625 := rfl
  rcases ratio_step (n := n) (by omega) with htop | hgrow
  · -- the step onto the top
    have hlast : n = saturationTick - 1 := by
      by_contra hne
      exact (ratio_lt_top (n := n + 1) (by omega)).ne htop
    rw [root, root, htop, hlast, ratio_before]
    refine lt_of_lt_of_le (b := 18446744073709) (Nat.sqrt_lt.mpr (by decide)) ?_
    exact Nat.le_sqrt.mpr (by decide)
  · exact sqrt_lt_sqrt_of_grow (scale_le_ratio (by omega)) hgrow

/-- Where the next root is higher. -/
theorem root_lt_succ_iff {n : ℕ} (hn : n < 1000000) :
    root n < root (n + 1) ↔ n < saturationTick := by
  constructor
  · intro hlt
    by_contra hge
    rw [root, root, ratio_of_ge (by omega) hn.le, ratio_of_ge (by omega) hn] at hlt
    exact lt_irrefl _ hlt
  · exact root_lt_succ

theorem root_bounds {n : ℕ} (hn : n ≤ 1000000) : 1000000 ≤ root n ∧ root n < 2 ^ 45 := by
  have hlow := scale_le_ratio (n := n) (by omega)
  have hhigh := ratio_le_top (n := n) (by omega)
  constructor
  · exact Nat.le_sqrt.mpr (le_trans (by decide) hlow)
  · exact Nat.sqrt_lt.mpr (lt_of_le_of_lt hhigh (by decide))

/-! ### Prices -/

/-- Above tick 0 the price is the root, scaled up. -/
theorem tickToSqrtPrice_pos {n : ℕ} (hpos : 0 < n) (hn : n ≤ 1000000) :
    tickToSqrtPrice n = root n * (Q96 / 1000000) := by
  have hbounds := root_bounds hn
  have hfits : root n * (Q96 / 1000000) < 2 ^ 128 :=
    calc root n * (Q96 / 1000000) < 2 ^ 45 * (Q96 / 1000000) :=
          Nat.mul_lt_mul_of_pos_right hbounds.2 (by decide)
      _ ≤ 2 ^ 128 := by decide
  rw [tickToSqrtPrice, if_neg (by omega)]
  show (if 0 < (n : ℤ) then satMul 128 (isqrt (ratio n)) (Q96 / 1000000) else _) = _
  rw [if_pos (by omega), isqrt_eq]
  exact satMul_of_lt hfits

/-- At and below tick 0 it is the reciprocal. -/
theorem tickToSqrtPrice_neg {n : ℕ} (hn : n ≤ 1000000) :
    tickToSqrtPrice (-n) = Q96 * 1000000 / root n := by
  have hbounds := root_bounds hn
  rw [tickToSqrtPrice]
  split
  case isTrue hzero =>
    obtain rfl : n = 0 := by omega
    have hroot : root 0 = 1000000 := Nat.sqrt_eq 1000000
    rw [hroot, Nat.mul_div_cancel _ (by decide)]
  case isFalse hne =>
    show (if 0 < -(n : ℤ) then _ else if isqrt (powLoop 64 scale (10001 * scale / 10000)
      (-(n : ℤ)).natAbs) = 0 then Q96 else satMul 128 Q96 1000000 / isqrt (powLoop 64 scale
        (10001 * scale / 10000) (-(n : ℤ)).natAbs)) = _
    rw [Int.natAbs_neg, Int.natAbs_natCast, if_neg (by omega), isqrt_eq]
    show (if root n = 0 then Q96 else satMul 128 Q96 1000000 / root n) = _
    rw [if_neg (by omega), satMul_of_lt (by decide)]

/-! ### One tick up -/

/-- Of the reciprocals of small numbers, at the scale of a price, the floors are apart. -/
theorem reciprocal_lt_iff {r r' : ℕ} (hr : 0 < r) (hr' : r' < 2 ^ 45) (hle : r ≤ r') :
    Q96 * 1000000 / r' < Q96 * 1000000 / r ↔ r < r' := by
  constructor
  · intro hlt
    refine lt_of_le_of_ne hle ?_
    rintro rfl
    exact lt_irrefl _ hlt
  · intro hlt
    have hbig : 2 ^ 45 ≤ Q96 * 1000000 / r' := by
      rw [Nat.le_div_iff_mul_le (by omega)]
      exact (Nat.mul_le_mul_left _ hr'.le).trans (by decide)
    have hfloor := Nat.div_mul_le_self (Q96 * 1000000) r'
    refine Nat.lt_of_succ_le ((Nat.le_div_iff_mul_le hr).mpr ?_)
    -- the larger denominator takes one more quotient off than the smaller one adds
    calc (Q96 * 1000000 / r' + 1) * r = Q96 * 1000000 / r' * r + r := by ring
      _ ≤ Q96 * 1000000 / r' * r + Q96 * 1000000 / r' := by omega
      _ = Q96 * 1000000 / r' * (r + 1) := by ring
      _ ≤ Q96 * 1000000 / r' * r' := Nat.mul_le_mul_left _ hlt
      _ ≤ Q96 * 1000000 := hfloor

/-- **The price of the next tick** is not lower, and it is higher between the two ticks where the
power saturates. -/
theorem tickToSqrtPrice_step {t : ℤ} (hlo : -1000000 ≤ t) (hhi : t < 1000000) :
    tickToSqrtPrice t ≤ tickToSqrtPrice (t + 1) ∧
      (tickToSqrtPrice t < tickToSqrtPrice (t + 1) ↔ -saturationTick ≤ t ∧ t < saturationTick) := by
  have hsat : saturationTick = 334625 := rfl
  rcases lt_trichotomy t 0 with hneg | rfl | hpos
  · obtain ⟨n, hn⟩ := Int.eq_ofNat_of_zero_le (show 0 ≤ -t - 1 by omega)
    have hroot := root_mono (Nat.le_add_right n 1) (by omega)
    have hlow := root_bounds (n := n) (by omega)
    have hhigh := root_bounds (n := n + 1) (by omega)
    rw [show t = -((n + 1 : ℕ) : ℤ) by omega, show -((n + 1 : ℕ) : ℤ) + 1 = -(n : ℤ) by omega,
      tickToSqrtPrice_neg (by omega), tickToSqrtPrice_neg (by omega),
      reciprocal_lt_iff (by omega) hhigh.2 hroot, root_lt_succ_iff (by omega)]
    exact ⟨Nat.div_le_div_left hroot (by omega), by omega⟩
  · have hone : root 0 < root 1 := root_lt_succ (by omega)
    have hzero := root_bounds (n := 0) (by omega)
    have hfirst : tickToSqrtPrice 0 < tickToSqrtPrice (0 + 1) :=
      calc tickToSqrtPrice 0 = Q96 := if_pos rfl
        _ < 1000001 * (Q96 / 1000000) := by decide
        _ ≤ root 1 * (Q96 / 1000000) := Nat.mul_le_mul_right _ (by omega)
        _ = tickToSqrtPrice (0 + 1) := (tickToSqrtPrice_pos Nat.one_pos (by omega)).symm
    exact ⟨hfirst.le, iff_of_true hfirst (by decide)⟩
  · obtain ⟨n, rfl⟩ := Int.eq_ofNat_of_zero_le hpos.le
    have hroot := root_mono (Nat.le_add_right n 1) (by omega)
    rw [show (n : ℤ) + 1 = ((n + 1 : ℕ) : ℤ) by omega, tickToSqrtPrice_pos (by omega) (by omega),
      tickToSqrtPrice_pos (by omega) (by omega), Nat.mul_lt_mul_right (by decide),
      root_lt_succ_iff (by omega)]
    exact ⟨Nat.mul_le_mul_right _ hroot, by omega⟩

/-- Prices do not fall. -/
theorem tickToSqrtPrice_mono {s t : ℤ} (hlo : -1000000 ≤ s) (hst : s ≤ t) (hhi : t ≤ 1000000) :
    tickToSqrtPrice s ≤ tickToSqrtPrice t := by
  induction t, hst using Int.leInduction with
  | base => exact le_rfl
  | succ t hst ih => exact (ih (by omega)).trans (tickToSqrtPrice_step (by omega) (by omega)).1

/-- At one end of the saturated range, all prices are the same. -/
theorem tickToSqrtPrice_saturated {s t : ℤ} (hlo : -1000000 ≤ s) (hst : s ≤ t) (hhi : t ≤ 1000000)
    (hout : t ≤ -saturationTick ∨ saturationTick ≤ s) : tickToSqrtPrice s = tickToSqrtPrice t := by
  have hsat : saturationTick = 334625 := rfl
  induction t, hst using Int.leInduction with
  | base => rfl
  | succ t hst ih =>
    have hstep := tickToSqrtPrice_step (t := t) (by omega) (by omega)
    rw [ih (by omega) (by omega)]
    refine le_antisymm hstep.1 (not_lt.mp fun hlt => ?_)
    have := hstep.2.mp hlt
    omega

/-- **Where prices rise.** -/
theorem tickToSqrtPrice_lt_iff {s t : ℤ} (hlo : -1000000 ≤ s) (hst : s < t) (hhi : t ≤ 1000000) :
    tickToSqrtPrice s < tickToSqrtPrice t ↔ -saturationTick < t ∧ s < saturationTick := by
  have hsat : saturationTick = 334625 := rfl
  constructor
  · intro hlt
    by_contra hout
    exact hlt.ne (tickToSqrtPrice_saturated hlo hst.le hhi (by omega))
  · rintro ⟨ht, hs⟩
    -- the first tick of the range from which the price rises
    have hstep := (tickToSqrtPrice_step (t := max s (-saturationTick)) (by omega) (by omega)).2.mpr
      (by omega)
    calc tickToSqrtPrice s ≤ tickToSqrtPrice (max s (-saturationTick)) :=
          tickToSqrtPrice_mono hlo (by omega) (by omega)
      _ < tickToSqrtPrice (max s (-saturationTick) + 1) := hstep
      _ ≤ tickToSqrtPrice t := tickToSqrtPrice_mono (by omega) (by omega) hhi

/-! ### The tick of a price -/

/-- The search for the tick is a bisection. -/
theorem tickSearch_eq (price : ℕ) : ∀ rounds lo hi,
    tickSearch price rounds lo hi
      = Bisection.search (fun t => tickToSqrtPrice t ≤ price) rounds lo hi := by
  intro rounds
  induction rounds with
  | zero => exact fun _ _ => rfl
  | succ rounds ih =>
    intro lo hi
    rw [tickSearch, Bisection.search]
    simp only [ih]

/-- **The tick of a price** is the greatest one whose price is not above it. -/
theorem sqrtPriceToTick_isGreatest {price : ℕ} (hprice : tickToSqrtPrice minTick ≤ price) :
    IsGreatest {t | (minTick ≤ t ∧ t ≤ maxTick) ∧ tickToSqrtPrice t ≤ price}
      (sqrtPriceToTick price) := by
  have hmin : minTick = -887272 := rfl
  have hmax : maxTick = 887272 := rfl
  have hlow := root_bounds (n := 887272) (by omega)
  have hpos : 0 < tickToSqrtPrice minTick := by
    rw [hmin, show (-887272 : ℤ) = -(887272 : ℕ) from rfl, tickToSqrtPrice_neg (by omega)]
    exact Nat.div_pos (hlow.2.le.trans (by decide)) (by omega)
  rw [sqrtPriceToTick, if_neg (by omega), tickSearch_eq]
  refine Bisection.search_isGreatest ?_ (by omega) hprice le_rfl
  intro s t hs hst ht hle
  exact (tickToSqrtPrice_mono (by omega) hst (by omega)).trans hle

/-- **`sqrt_price_to_tick` is the floor**: prices do not fall over the whole range of ticks, and
from the lowest price on it returns the greatest tick whose price is not above the given one. -/
theorem sqrtPriceToTick_floor :
    (∀ s t, minTick ≤ s → s ≤ t → t ≤ maxTick → tickToSqrtPrice s ≤ tickToSqrtPrice t) ∧
      ∀ price, tickToSqrtPrice minTick ≤ price →
        IsGreatest {t | (minTick ≤ t ∧ t ≤ maxTick) ∧ tickToSqrtPrice t ≤ price}
          (sqrtPriceToTick price) := by
  have hmin : minTick = -887272 := rfl
  have hmax : maxTick = 887272 := rfl
  constructor
  · intro s t hs hst ht
    exact tickToSqrtPrice_mono (by omega) hst (by omega)
  · intro price hprice
    exact sqrtPriceToTick_isGreatest hprice

/-- **Which ticks come back from their price**, and which pairs of ticks have different prices:
those that the saturated powers do not reach, and the highest tick. -/
theorem sqrtPriceToTick_tickToSqrtPrice_iff {t : ℤ} (hlo : minTick ≤ t) (hhi : t ≤ maxTick) :
    (sqrtPriceToTick (tickToSqrtPrice t) = t ↔
        (-saturationTick ≤ t ∧ t < saturationTick) ∨ t = maxTick) ∧
      ∀ s, minTick ≤ s → s < t →
        (tickToSqrtPrice s < tickToSqrtPrice t ↔ -saturationTick < t ∧ s < saturationTick) := by
  have hmin : minTick = -887272 := rfl
  have hmax : maxTick = 887272 := rfl
  have hgreatest := sqrtPriceToTick_isGreatest
    (tickToSqrtPrice_mono (s := minTick) (t := t) (by omega) hlo (by omega))
  have hge : t ≤ sqrtPriceToTick (tickToSqrtPrice t) := hgreatest.2 ⟨⟨hlo, hhi⟩, le_rfl⟩
  refine ⟨⟨?_, ?_⟩, ?_⟩
  · intro heq
    by_contra hnot
    have hstep := tickToSqrtPrice_step (t := t) (by omega) (by omega)
    have hnext : tickToSqrtPrice (t + 1) ≤ tickToSqrtPrice t := by
      rw [← not_lt, hstep.2]
      omega
    have hle := hgreatest.2 ⟨⟨by omega, by omega⟩, hnext⟩
    omega
  · rintro (hin | rfl)
    · refine le_antisymm (not_lt.mp fun hlt => ?_) hge
      have hstep := (tickToSqrtPrice_step (t := t) (by omega) (by omega)).2.mpr hin
      have hmono := tickToSqrtPrice_mono (s := t + 1) (by omega) hlt
        (hgreatest.1.1.2.trans (by omega))
      exact absurd hgreatest.1.2 (not_le.mpr (hstep.trans_le hmono))
    · exact le_antisymm hgreatest.1.1.2 hge
  · intro s hs hst
    exact tickToSqrtPrice_lt_iff (by omega) hst (by omega)

/-- Two ticks of spacing 60 that `mint` and `burn` accept have the same price, and the lower one
comes back from it as the highest tick. -/
theorem saturated_ticks_share_a_price :
    (validateTick 400020 60 = .ok () ∧ validateTick 500040 60 = .ok ()) ∧
      tickToSqrtPrice 400020 = tickToSqrtPrice 500040 ∧
      sqrtPriceToTick (tickToSqrtPrice 400020) = maxTick := by
  have hsat : saturationTick = 334625 := rfl
  have hmin : minTick = -887272 := rfl
  have hmax : maxTick = 887272 := rfl
  have hpair := tickToSqrtPrice_saturated (s := 400020) (t := 500040) (by omega) (by omega)
    (by omega) (by omega)
  have hhighest := tickToSqrtPrice_saturated (s := 400020) (t := maxTick) (by omega) (by omega)
    (by omega) (by omega)
  have hgreatest := sqrtPriceToTick_isGreatest
    (tickToSqrtPrice_mono (s := minTick) (t := 400020) (by omega) (by omega) (by omega))
  refine ⟨⟨by decide, by decide⟩, hpair, le_antisymm hgreatest.1.1.2 ?_⟩
  exact hgreatest.2 ⟨⟨by omega, le_rfl⟩, hhighest.ge⟩

/-- Tick -60 comes back from its price, which is above that of tick -120. -/
theorem tick_comes_back_at_minus_sixty :
    (sqrtPriceToTick (tickToSqrtPrice (-60)) = -60 ↔
        (-(saturationTick : ℤ) ≤ -60 ∧ (-60 : ℤ) < saturationTick) ∨ (-60 : ℤ) = maxTick) ∧
      (tickToSqrtPrice (-120) < tickToSqrtPrice (-60) ↔
        -(saturationTick : ℤ) < -60 ∧ (-120 : ℤ) < saturationTick) := by
  have hiff := sqrtPriceToTick_tickToSqrtPrice_iff (t := -60) (by decide) (by decide)
  exact ⟨hiff.1, hiff.2 (-120) (by decide) (by decide)⟩

end Swyft.PoolContract
