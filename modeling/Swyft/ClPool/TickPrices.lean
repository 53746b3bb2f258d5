import Swyft.ClPool.Ladder
import Swyft.Lib.Floors
import Mathlib.Data.Nat.GCD.Basic

/-!
# How far the linear price model reaches

`cl-pool` prices tick `t` at `2 ^ 96 + t * 2 ^ 96 / 20000`, a line that reaches zero at tick -20000,
far inside the range that `validate_tick` lets through, and that is rounded down in both directions.

## Main results

* `round_trip_iff` — a tick comes back from its price exactly when 625 divides it
* `records_tick_iff` — and so does the tick a swap stores when it stops on a price of the grid
* `prices_usable_iff` — above tick -20000, and only there, prices are positive and strictly
  increasing and `amounts_for_liquidity` stops for no other reason than an oversized product
-/

namespace Swyft.ClPool

open Checked

variable {t : ℤ}

/-! ### There and back again -/

theorem scaledTick_eq (diff : ℕ) : scaledTick diff = min (diff * 20000 / Q96) (2 ^ 31 - 1) := by
  rw [scaledTick, Floors.split_mul_div diff 20000 Q96_pos]

theorem tickToSqrtPrice_neg (n : ℕ) : tickToSqrtPrice (-n) = Q96 - n * Q96 / 20000 := by
  rcases Nat.eq_zero_or_pos n with rfl | hn
  · rfl
  · rw [tickToSqrtPrice, if_neg (by omega), neg_neg, Int.toNat_natCast]
    rfl

theorem tickToSqrtPrice_nat (n : ℕ) : tickToSqrtPrice n = Q96 + n * Q96 / 20000 := by
  rw [tickToSqrtPrice, if_pos (by omega), Int.toNat_natCast]

/-- The scaled distance of a tick's price from `Q96` is not cut off. -/
theorem scaledTick_roundTrip {n : ℕ} (hn : n < 2 ^ 31) :
    scaledTick (n * Q96 / 20000) = n * Q96 / 20000 * 20000 / Q96 := by
  have hle : n * Q96 / 20000 * 20000 / Q96 ≤ n :=
    Nat.div_le_of_le_mul (by rw [mul_comm Q96]; exact Nat.div_mul_le_self _ _)
  rw [scaledTick_eq]
  omega

/-- `20000 = 2 ^ 5 * 625`, and `Q96` is a power of two. -/
theorem dvd_scaled_iff (n : ℕ) : 20000 ∣ n * Q96 ↔ 625 ∣ n := by
  have hsplit : n * Q96 = 32 * (n * 2 ^ 91) := by
    rw [Q96]
    ring
  have hcop : Nat.Coprime 625 (2 ^ 91) := by decide
  rw [hsplit, show 20000 = 32 * 625 from rfl, Nat.mul_dvd_mul_iff_left (by decide)]
  exact ⟨hcop.dvd_of_dvd_mul_right, fun h => Dvd.dvd.mul_right h _⟩

/-- **When a tick survives its own price.** -/
theorem round_trip_iff (hlo : -20000 < t) (hhi : t ≤ maxTick) :
    sqrtPriceToTick (tickToSqrtPrice t) = t ↔ 625 ∣ t := by
  have hscale : 20000 ≤ Q96 := by decide
  have hmax : t ≤ 887272 := hhi
  rcases le_or_gt 0 t with hpos | hneg
  · obtain ⟨n, rfl⟩ := Int.eq_ofNat_of_zero_le hpos
    have htick : sqrtPriceToTick (Q96 + n * Q96 / 20000)
        = ((n * Q96 / 20000 * 20000 / Q96 : ℕ) : ℤ) := by
      rw [sqrtPriceToTick, if_neg (by omega), if_pos (by omega), Nat.add_sub_cancel_left,
        scaledTick_roundTrip (by omega)]
    rw [tickToSqrtPrice_nat, htick, Int.ofNat_inj, Floors.round_trip_iff (by decide) hscale,
      dvd_scaled_iff]
    exact Int.natCast_dvd_natCast.symm
  · obtain ⟨n, hn⟩ := Int.eq_ofNat_of_zero_le (Int.neg_nonneg.mpr hneg.le)
    obtain rfl : t = -n := by omega
    have hdist : 0 < n * Q96 / 20000 :=
      Nat.div_pos (hscale.trans (Nat.le_mul_of_pos_left _ (by omega))) (by decide)
    have hbelow : n * Q96 / 20000 < Q96 := by
      rw [Nat.div_lt_iff_lt_mul (by decide), mul_comm Q96]
      exact Nat.mul_lt_mul_of_pos_right (by omega) Q96_pos
    have htick : sqrtPriceToTick (Q96 - n * Q96 / 20000)
        = -((n * Q96 / 20000 * 20000 / Q96 : ℕ) : ℤ) := by
      rw [sqrtPriceToTick, if_neg (by omega), if_neg (by omega), Nat.sub_sub_self hbelow.le,
        scaledTick_roundTrip (by omega)]
    rw [tickToSqrtPrice_neg, htick, neg_inj, Int.ofNat_inj,
      Floors.round_trip_iff (by decide) hscale, dvd_scaled_iff, Int.dvd_neg]
    exact Int.natCast_dvd_natCast.symm

/-- **The tick a swap records.** A swap that stops on the price of tick `t` stores `t` exactly when
`t` survives its own price. -/
theorem records_tick_iff (hlo : -20000 < t) (hhi : t ≤ maxTick) :
    (sqrtPriceToTick (tickToSqrtPrice t) = t ↔ 625 ∣ t) ∧
      ∀ {w w' : World} {sender : Address} {zeroForOne : Bool} {amountIn sqrtPriceLimit : ℕ}
        {delta0 delta1 : ℤ} {outcome : SwapOutcome},
        swap w sender zeroForOne amountIn sqrtPriceLimit = .ok (w', delta0, delta1, outcome) →
        w'.pool.sqrtPriceX96 = tickToSqrtPrice t → (w'.pool.currentTick = t ↔ 625 ∣ t) := by
  refine ⟨round_trip_iff hlo hhi, ?_⟩
  intro w w' sender zeroForOne amountIn sqrtPriceLimit delta0 delta1 outcome h hprice
  obtain ⟨hswap, -⟩ := swap_eq_ok.mp h
  have htick : w'.pool.currentTick = sqrtPriceToTick w'.pool.sqrtPriceX96 := by
    obtain ⟨_, _, -, -, hpool⟩ := settlePool_eq_ok.mp hswap.settled
    rw [hpool]
  rw [htick, hprice]
  exact round_trip_iff hlo hhi

/-- Tick 60 comes back from its price as tick 59, and a swap that stops on it, where another
position begins, stores tick 59. -/
theorem swap_on_sixty_records_fiftyNine :
    sqrtPriceToTick (tickToSqrtPrice 60) = 59 ∧
      ∃ w, Reachable w ∧ Yields (swap w ⟨9⟩ false 500000 (tickToSqrtPrice 60)) fun x =>
        0 < (readTick w.pool.ticks 60).liquidityGross ∧
          x.1.pool.sqrtPriceX96 = tickToSqrtPrice 60 ∧ x.1.pool.currentTick = 59 := by
  refine ⟨by decide, ?_⟩
  exact exists_reachable 3000 unitPrice
    [.addLiquidity ⟨7⟩ (-600) 600 1000000, .addLiquidity ⟨7⟩ 60 600 1000]
    (fun w => Yields (swap w ⟨9⟩ false 500000 (tickToSqrtPrice 60)) fun x =>
      0 < (readTick w.pool.ticks 60).liquidityGross ∧
        x.1.pool.sqrtPriceX96 = tickToSqrtPrice 60 ∧ x.1.pool.currentTick = 59)
    (by decide +kernel)

/-- Tick 3750 is a multiple of 625, and a swap that stops on it stores it. -/
theorem swap_on_3750_records_it :
    (sqrtPriceToTick (tickToSqrtPrice 3750) = 3750 ↔ (625 : ℤ) ∣ 3750) ∧
      ∃ w w' delta0 delta1 outcome, Reachable w ∧
        swap w ⟨9⟩ false 500000 (tickToSqrtPrice 3750) = .ok (w', delta0, delta1, outcome) ∧
        (w'.pool.currentTick = 3750 ↔ (625 : ℤ) ∣ 3750) := by
  have hlow : -20000 < (3750 : ℤ) := by decide
  have hrecords := records_tick_iff hlow (by decide)
  refine ⟨hrecords.1, ?_⟩
  obtain ⟨w, hr, hw⟩ := exists_reachable 500 unitPrice
    [.addLiquidity ⟨7⟩ (-600) 6000 1000000, .addLiquidity ⟨7⟩ 3750 6000 1000]
    (fun w => Yields (swap w ⟨9⟩ false 500000 (tickToSqrtPrice 3750)) fun x =>
      x.1.pool.sqrtPriceX96 = tickToSqrtPrice 3750)
    (by decide +kernel)
  obtain ⟨⟨w', delta0, delta1, outcome⟩, hswap, hprice⟩ := yields_iff.mp hw
  exact ⟨w, w', delta0, delta1, outcome, hr, hswap, hrecords.2 hswap hprice⟩

/-! ### Usable prices -/

/-- The price line reaches zero at tick -20000. -/
theorem tickToSqrtPrice_pos_iff : 0 < tickToSqrtPrice t ↔ -20000 < t := by
  have hscale : 20000 ≤ Q96 := by decide
  rw [tickToSqrtPrice]
  split
  case isTrue hpos =>
    have := Q96_pos
    omega
  case isFalse hneg =>
    have hzero : (-t).toNat * Q96 / 20000 < Q96 ↔ (-t).toNat < 20000 := by
      rw [Nat.div_lt_iff_lt_mul (by decide), mul_comm Q96, Nat.mul_lt_mul_right Q96_pos]
    rw [satSub, Nat.sub_pos_iff_lt, hzero]
    omega

/-- The next price is higher unless both are zero. -/
theorem tickToSqrtPrice_lt_iff {s : ℤ} (h : s < t) :
    tickToSqrtPrice s < tickToSqrtPrice t ↔ -20000 < t := by
  rw [← tickToSqrtPrice_pos_iff]
  exact ⟨fun hlt => by omega, tickToSqrtPrice_lt h⟩

/-- `amounts_for_liquidity` stops on a range only when one of its products leaves its word: neither
division is by zero, the clamp has ordered bounds and neither difference goes below zero. -/
def StopsOnlyOnOverflow (sqrtLower sqrtUpper : ℕ) : Prop :=
  ∀ liquidity sqrtCurrent, liquidity * Q96 < 2 ^ 128 →
    liquidity * (clamp sqrtCurrent sqrtLower sqrtUpper - sqrtLower) < 2 ^ 128 →
    Yields (amountsForLiquidity liquidity sqrtLower sqrtUpper sqrtCurrent) fun _ => True

theorem stopsOnlyOnOverflow_iff {lo hi : ℕ} (h : lo ≤ hi) :
    StopsOnlyOnOverflow lo hi ↔ 0 < lo := by
  constructor
  · intro hstops
    obtain ⟨⟨amount0, amount1⟩, hok, -⟩ := yields_iff.mp (hstops 0 0 (by simp) (by simp))
    exact (amountsForLiquidity_eq_ok.mp hok).2.1
  · intro hpos liquidity sqrtCurrent hscaled hproduct
    rw [amountsForLiquidity_of_fits h hpos hscaled hproduct]
    trivial

/-- **Usable prices.** Of every ordered pair of ticks, the prices are positive, strictly increasing,
and safe for `amounts_for_liquidity`, exactly above tick -20000. -/
theorem prices_usable_iff {tickLower tickUpper : ℤ} (hlt : tickLower < tickUpper) :
    (0 < tickToSqrtPrice tickLower ↔ -20000 < tickLower) ∧
      (tickToSqrtPrice tickLower < tickToSqrtPrice tickUpper ↔ -20000 < tickUpper) ∧
      (StopsOnlyOnOverflow (tickToSqrtPrice tickLower) (tickToSqrtPrice tickUpper) ↔
        -20000 < tickLower) := by
  refine ⟨tickToSqrtPrice_pos_iff, tickToSqrtPrice_lt_iff hlt, ?_⟩
  rw [stopsOnlyOnOverflow_iff (tickToSqrtPrice_mono hlt.le), tickToSqrtPrice_pos_iff]

/-- Two ticks of spacing 60 that pass validation: the lower one has price zero, and the amounts of
any liquidity between them divide by it. -/
theorem valid_tick_without_price :
    ValidTick (-20040) 60 ∧ ValidTick (-19980) 60 ∧ tickToSqrtPrice (-20040) = 0 ∧
      amountsForLiquidity 1 (tickToSqrtPrice (-20040)) (tickToSqrtPrice (-19980)) Q96
        = .error .arithmetic := by
  unfold ValidTick
  decide

theorem prices_usable_at_unit :
    (0 < tickToSqrtPrice (-60) ↔ -20000 < (-60 : ℤ)) ∧
      (tickToSqrtPrice (-60) < tickToSqrtPrice 60 ↔ -20000 < (60 : ℤ)) ∧
      (StopsOnlyOnOverflow (tickToSqrtPrice (-60)) (tickToSqrtPrice 60) ↔
        -20000 < (-60 : ℤ)) :=
  prices_usable_iff (by decide)

end Swyft.ClPool
