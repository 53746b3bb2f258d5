import Swyft.ClPool.Ladder
import Swyft.ClPool.Rounding

/-!
# The partial step of a swap

When the remaining input does not pay for the whole segment, `next_sqrt_price_from_input` works out
how far it reaches. Whether the input falls short is decided by `get_amount_*_delta`, the price
reached by another formula; the two agree only so far.

On the way down the input asked for the whole segment comes out too large by what the larger price
has beyond whole units of `Q96`, so an input below it may reach beyond the target. On the way up the
price reached is always short of the target. The output is another matter there: it is divided by
the whole units of the price reached, and these may be fewer than the target's.

## Main definitions

* `StepsInside` — the step stays in its segment and pays at most what the segment does
* `CoversStep` — the steps that do

## Main results

* `partial_step_inside_iff` — a partial step stays inside exactly if it is one of them
-/

namespace Swyft.ClPool

open Checked

/-- The price reached lies between the target and the current price, and the output is at most that
of the whole segment. -/
structure StepsInside (zeroForOne : Bool) (sqrtPrice target liquidity next : ℕ) : Prop where
  between : if zeroForOne then target ≤ next ∧ next ≤ sqrtPrice
    else sqrtPrice ≤ next ∧ next ≤ target
  paid : amountPaid zeroForOne sqrtPrice next liquidity
    ≤ amountPaid zeroForOne sqrtPrice target liquidity

instance (zeroForOne : Bool) (sqrtPrice target liquidity next : ℕ) :
    Decidable (StepsInside zeroForOne sqrtPrice target liquidity next) :=
  decidable_of_iff ((if zeroForOne then target ≤ next ∧ next ≤ sqrtPrice
      else sqrtPrice ≤ next ∧ next ≤ target) ∧
    amountPaid zeroForOne sqrtPrice next liquidity
      ≤ amountPaid zeroForOne sqrtPrice target liquidity)
    ⟨fun h => ⟨h.1, h.2⟩, fun h => ⟨h.between, h.paid⟩⟩

/-- The dividend of the amount of token 0 up to a price above. -/
def dividendUp (sqrtPrice upper liquidity : ℕ) : ℕ :=
  satMul 128 liquidity (if sqrtPrice = 0 then Q96 else upper - sqrtPrice)

/-- Its divisor: the whole units of the price above times the price, or, from price zero, the price
above. -/
def divisorUp (sqrtPrice upper : ℕ) : ℕ :=
  if sqrtPrice = 0 then upper else satMul 128 (max (upper / Q96) 1) sqrtPrice

/-- The steps that stay inside. Down, the target must be ahead and the whole steps of input, times
the target, within the liquidity moved. Up, the target must be ahead, and the stretch moved, over
the whole units of the price reached, must not come to more than the segment's output. -/
def CoversStep (zeroForOne : Bool) (sqrtPrice target liquidity amountIn : ℕ) : Prop :=
  if zeroForOne then
    target ≤ sqrtPrice ∧ target * (amountIn * sqrtPrice / Q96) ≤ liquidity * (sqrtPrice - target)
  else
    let move := amountIn * Q96 / liquidity
    sqrtPrice ≤ target ∧ (move = 0 ∨
      dividendUp sqrtPrice (sqrtPrice + move) liquidity
        < (dividendUp sqrtPrice target liquidity / divisorUp sqrtPrice target + 1)
          * divisorUp sqrtPrice (sqrtPrice + move))

instance (zeroForOne : Bool) (sqrtPrice target liquidity amountIn : ℕ) :
    Decidable (CoversStep zeroForOne sqrtPrice target liquidity amountIn) := by
  unfold CoversStep
  infer_instance

variable {price target l r next : ℕ}

/-! ### Down -/

/-- The output of a move down, also where nothing is moved. -/
theorem amountPaid_down (l price target : ℕ) :
    amountPaid true price target l = numerator price target l / Q96 := by
  rw [amountPaid, if_pos rfl]
  by_cases hnone : price = target ∨ l = 0
  · rw [getAmount1Delta, if_pos hnone, numerator]
    rcases hnone with rfl | rfl <;> simp [satMul]
  · obtain ⟨hne, hl⟩ := not_or.mp hnone
    rw [getAmount1Delta_eq hne hl, roundQuotient_false]

/-- A shorter move down pays no more. -/
theorem amountPaid_down_mono (htarget : target ≤ next) (hnext : next ≤ price) :
    amountPaid true price next l ≤ amountPaid true price target l := by
  rw [amountPaid_down, amountPaid_down]
  refine Nat.div_le_div_right (min_le_min_right _ (Nat.mul_le_mul_left _ ?_))
  omega

/-- The price reached is never above the current one. -/
theorem insidePrice_down_le : insidePrice true price l r ≤ price := by
  rw [insidePrice, if_pos rfl]
  exact Nat.div_le_of_le_mul (Nat.mul_le_mul_right _ (Nat.le_add_right _ _))

/-- When the price reached is not below the target. -/
theorem le_insidePrice_down_iff (hl : l ≠ 0) (h : target ≤ price) :
    target ≤ insidePrice true price l r ↔
      target * (r * price / Q96) ≤ l * (price - target) := by
  have hleft : target * (l + r * price / Q96) = l * target + target * (r * price / Q96) := by ring
  have hright : l * price = l * target + l * (price - target) := by
    rw [← Nat.mul_add, Nat.add_sub_cancel' h]
  rw [insidePrice, if_pos rfl,
    Nat.le_div_iff_mul_le (Nat.add_pos_left (Nat.pos_of_ne_zero hl) _), hleft, hright]
  exact Nat.add_le_add_iff_left

theorem down_inside_iff (hl : l ≠ 0) :
    StepsInside true price target l (insidePrice true price l r) ↔
      CoversStep true price target l r := by
  simp only [CoversStep, if_true]
  constructor
  · intro h
    have hbetween := h.between
    simp only [if_true] at hbetween
    have hahead : target ≤ price := le_trans hbetween.1 hbetween.2
    exact ⟨hahead, (le_insidePrice_down_iff hl hahead).mp hbetween.1⟩
  · rintro ⟨hahead, hcovers⟩
    have hreached := (le_insidePrice_down_iff hl hahead).mpr hcovers
    have hle : insidePrice true price l r ≤ price := insidePrice_down_le
    exact ⟨by rw [if_pos rfl]; exact ⟨hreached, hle⟩, amountPaid_down_mono hreached hle⟩

/-! ### Up -/

/-- An input short of the segment does not reach the target. -/
theorem insidePrice_up_lt (hl : l ≠ 0) (h : price ≤ target)
    (hshort : r < amountConsumed false price target l) :
    insidePrice false price l r < target := by
  have hne : price ≠ target := by
    rintro rfl
    simp [amountConsumed, getAmount1Delta] at hshort
  rw [amountConsumed, if_neg (by decide), getAmount1Delta_eq hne hl,
    roundQuotient_true (numerator_lt _ _ _)] at hshort
  have hin : r * Q96 < numerator price target l := by
    have hdiv := Nat.div_add_mod (numerator price target l) Q96
    rw [Q96] at hshort hdiv ⊢
    split at hshort <;> omega
  have hmove : r * Q96 / l < target - price := by
    rw [Nat.div_lt_iff_lt_mul (Nat.pos_of_ne_zero hl), Nat.mul_comm (target - price)]
    refine lt_of_lt_of_le hin (le_trans (numerator_le _ _ _) (Nat.mul_le_mul_left _ ?_))
    omega
  rw [insidePrice, if_neg (by decide)]
  omega

theorem divisorUp_pos {upper : ℕ} (h : price < upper) : 0 < divisorUp price upper := by
  rw [divisorUp]
  split
  case isTrue h0 => omega
  case isFalse h0 =>
    have hpos : 0 < max (upper / Q96) 1 * price :=
      Nat.mul_pos (lt_max_of_lt_right Nat.one_pos) (Nat.pos_of_ne_zero h0)
    simp only [satMul]
    omega

/-- The output of a move up. -/
theorem amountPaid_up {upper : ℕ} (hl : l ≠ 0) (h : price < upper) :
    amountPaid false price upper l = dividendUp price upper l / divisorUp price upper := by
  rw [amountPaid, if_neg (by decide), getAmount0Delta, if_neg (not_or.mpr ⟨h.ne, hl⟩),
    min_eq_left h.le, max_eq_right h.le, dividendUp, divisorUp]
  by_cases h0 : price = 0
  · simp only [if_pos h0]
  · simp only [if_neg h0, roundQuotient_false]

/-- When the output up to the price reached is at most that of the segment. -/
theorem amountPaid_up_le_iff {move : ℕ} (hl : l ≠ 0) (h : price < target) :
    amountPaid false price (price + move) l ≤ amountPaid false price target l ↔
      move = 0 ∨ dividendUp price (price + move) l
        < (dividendUp price target l / divisorUp price target + 1)
          * divisorUp price (price + move) := by
  rcases Nat.eq_zero_or_pos move with rfl | hmove
  · simp [amountPaid, getAmount0Delta]
  · rw [amountPaid_up hl (Nat.lt_add_of_pos_right hmove), amountPaid_up hl h,
      or_iff_right hmove.ne', ← Nat.lt_succ_iff,
      Nat.div_lt_iff_lt_mul (divisorUp_pos (Nat.lt_add_of_pos_right hmove))]

theorem up_inside_iff (hl : l ≠ 0) (hshort : r < amountConsumed false price target l) :
    StepsInside false price target l (insidePrice false price l r) ↔
      CoversStep false price target l r := by
  have hreached : insidePrice false price l r = price + r * Q96 / l := rfl
  simp only [CoversStep, Bool.false_eq_true, if_false]
  constructor
  · intro h
    have hbetween := h.between
    simp only [Bool.false_eq_true, if_false] at hbetween
    have hahead : price ≤ target := le_trans hbetween.1 hbetween.2
    have hlt : price < target := lt_of_le_of_lt hbetween.1 (insidePrice_up_lt hl hahead hshort)
    have hpaid := h.paid
    rw [hreached] at hpaid
    exact ⟨hahead, (amountPaid_up_le_iff hl hlt).mp hpaid⟩
  · rintro ⟨hahead, hcovers⟩
    have hnext := insidePrice_up_lt hl hahead hshort
    have hle : price ≤ insidePrice false price l r := Nat.le_add_right _ _
    have hlt : price < target := lt_of_le_of_lt hle hnext
    refine ⟨?_, ?_⟩
    · rw [if_neg (by decide)]
      exact ⟨hle, hnext.le⟩
    · rw [hreached]
      exact (amountPaid_up_le_iff hl hlt).mpr hcovers

/-! ### Both directions -/

theorem amountConsumed_zero (zeroForOne : Bool) (price target : ℕ) :
    amountConsumed zeroForOne price target 0 = 0 := by
  cases zeroForOne <;> simp [amountConsumed, getAmount0Delta, getAmount1Delta]

/-- **A partial step stays inside its segment exactly if it is covered**: for every price, target,
liquidity and input with which the loop makes one. -/
theorem partial_step_inside_iff {zeroForOne : Bool}
    (hshort : r < amountConsumed zeroForOne price target l)
    (hnext : nextSqrtPriceFromInput price l r zeroForOne = .ok next) :
    StepsInside zeroForOne price target l next ↔ CoversStep zeroForOne price target l r := by
  have hl : l ≠ 0 := by
    rintro rfl
    rw [amountConsumed_zero] at hshort
    omega
  rw [nextSqrtPriceFromInput_eq hl hnext]
  cases zeroForOne with
  | true => exact down_inside_iff hl
  | false => exact up_inside_iff hl hshort

/-- Between ticks 0 and 600 nothing differs by a whole unit. -/
theorem partial_step_inside_unit :
    5 < amountConsumed false (2 ^ 96) (tickToSqrtPrice 600) 1000 ∧
      StepsInside false (2 ^ 96) (tickToSqrtPrice 600) 1000 (2 ^ 96 + 5 * 2 ^ 96 / 1000) := by
  have hshort : 5 < amountConsumed false (2 ^ 96) (tickToSqrtPrice 600) 1000 := by decide
  have hnext : nextSqrtPriceFromInput (2 ^ 96) 1000 5 false
      = .ok (2 ^ 96 + 5 * 2 ^ 96 / 1000) := by decide
  exact ⟨hshort, (partial_step_inside_iff hshort hnext).mpr (by decide)⟩

/-- **A partial step beyond its segment.** At 1.75 times the unit price a pool holds 2000 of
liquidity from tick 0 on. Of an input of 1003 the fee leaves 1000, short of the 1500 asked for the
way down to tick 0; the step goes below that price, and pays 1633 where the whole segment
pays 1500. -/
theorem partial_step_beyond_segment :
    ∃ w, Reachable w ∧
      Yields (netInput w.pool 1003) fun net =>
        Yields (findTarget w.pool true 0 (swapStart w.pool net)) fun x =>
          net < amountConsumed true w.pool.sqrtPriceX96 x.2.2 w.pool.liquidity ∧
          Yields (nextSqrtPriceFromInput w.pool.sqrtPriceX96 w.pool.liquidity net true) fun next =>
            next < x.2.2 ∧
            amountPaid true w.pool.sqrtPriceX96 x.2.2 w.pool.liquidity = 1500 ∧
            amountPaid true w.pool.sqrtPriceX96 next w.pool.liquidity = 1633 ∧
            ¬ StepsInside true w.pool.sqrtPriceX96 x.2.2 w.pool.liquidity next :=
  exists_reachable 3000 138649284399962590788701913088 [.addLiquidity ⟨7⟩ 0 24000 2000] _
    (by decide +kernel)

end Swyft.ClPool
