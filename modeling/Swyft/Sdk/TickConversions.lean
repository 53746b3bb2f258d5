import Swyft.ClPool.TickPrices
import Swyft.JsNumber
import Swyft.Sdk.RemoveAmounts

/-!
# Ticks and prices, in the SDK and in the contract

`tickToSqrtPriceX96` and `sqrtPriceX96ToTick` of `packages/sdk/src/position-math.ts` mirror
`tick_to_sqrt_price` and `sqrt_price_to_tick` of `cl-pool`. The SDK multiplies before it divides, in
whole numbers without bounds; the contract splits the distance from the unit into a quotient and a
remainder, so that no product leaves the 128 bits.

## Main definitions

* `sqrtPriceX96ToTick` — the function of the SDK
* `ClPool.sqrtPriceToTickU128` — the function of the contract with the operators of `u128`
* `TickFits` — the tick of a price is an `i32`

## Main results

* `ClPool.sqrtPriceToTickU128_eq` — of no price does an operator overflow
* `tick_conversions_agree` — where the conversions are the same
-/

namespace Swyft

open Checked

/-! ### The contract -/

namespace ClPool

/-- The closure `scaled` of `sqrt_price_to_tick`, operator by operator. -/
def scaledTickU128 (diff : ℕ) : Res ℕ := do
  let whole ← divU128 diff Q96
  let frac := diff % Q96
  let wholeTicks ← mulU128 whole 20000
  let fracScaled ← mulU128 frac 20000
  let fracTicks ← divU128 fracScaled Q96
  let v ← addU128 wholeTicks fracTicks
  pure (min v (2 ^ 31 - 1))

/-- `sqrt_price_to_tick`, operator by operator. -/
def sqrtPriceToTickU128 (sqrtPriceX96 : ℕ) : Res ℤ :=
  if sqrtPriceX96 = 0 then pure 0
  else if Q96 ≤ sqrtPriceX96 then do
    let diff ← subU128 sqrtPriceX96 Q96
    let tick ← scaledTickU128 diff
    pure (tick : ℤ)
  else do
    let diff ← subU128 Q96 sqrtPriceX96
    let tick ← scaledTickU128 diff
    fitI32 (-(tick : ℤ))

/-- `tick_to_sqrt_price`, operator by operator. -/
def tickToSqrtPriceU128 (tick : ℤ) : Res ℕ :=
  if 0 ≤ tick then do
    let scaled ← mulU128 tick.toNat Q96
    addU128 Q96 (scaled / 20000)
  else do
    let abs ← fitI32 (-tick)
    let scaled ← mulU128 abs.toNat Q96
    pure (satSub Q96 (scaled / 20000))

/-- **Nothing overflows**: the quotient has 32 bits, and the remainder 96. -/
theorem scaledTickU128_eq {diff : ℕ} (h : diff < 2 ^ 128) :
    scaledTickU128 diff = .ok (scaledTick diff) := by
  have hwhole : diff / Q96 < 2 ^ 32 := Nat.div_lt_of_lt_mul h
  have hfrac : diff % Q96 < 2 ^ 96 := Nat.mod_lt diff Q96_pos
  have hticks : diff % Q96 * 20000 / Q96 ≤ diff % Q96 * 20000 := Nat.div_le_self _ _
  have hwholeTicks : mulU128 (diff / Q96) 20000 = .ok (diff / Q96 * 20000) :=
    fitU_of_lt (by omega)
  have hfracScaled : mulU128 (diff % Q96) 20000 = .ok (diff % Q96 * 20000) :=
    fitU_of_lt (by omega)
  have hsum : addU128 (diff / Q96 * 20000) (diff % Q96 * 20000 / Q96)
      = .ok (diff / Q96 * 20000 + diff % Q96 * 20000 / Q96) := fitU_of_lt (by omega)
  rw [scaledTickU128, divU128, divU_of_pos Q96_pos, ok_bind, hwholeTicks, ok_bind, hfracScaled,
    ok_bind, divU128, divU_of_pos Q96_pos, ok_bind, hsum, ok_bind]
  rfl

/-- Of no price does an operator of `sqrt_price_to_tick` overflow. -/
theorem sqrtPriceToTickU128_eq {p : ℕ} (h : p < 2 ^ 128) :
    sqrtPriceToTickU128 p = .ok (sqrtPriceToTick p) := by
  rw [sqrtPriceToTickU128, sqrtPriceToTick]
  split_ifs with hzero habove
  · rfl
  · rw [subU128, subU_of_le habove, ok_bind, scaledTickU128_eq (by omega), ok_bind]
    rfl
  · have hmax : Q96 < 2 ^ 128 := by decide
    rw [subU128, subU_of_le (by omega), ok_bind, scaledTickU128_eq (by omega), ok_bind]
    have hscaled : scaledTick (Q96 - p) ≤ 2 ^ 31 - 1 := Nat.min_le_right _ _
    exact if_pos (by omega)

/-- Of no tick in bounds does an operator of `tick_to_sqrt_price` overflow. -/
theorem tickToSqrtPriceU128_eq {t : ℤ} (hlow : minTick ≤ t) (hhigh : t ≤ maxTick) :
    tickToSqrtPriceU128 t = .ok (tickToSqrtPrice t) := by
  have hmin : minTick = -887272 := rfl
  have hmax : maxTick = 887272 := rfl
  have hQ96 : Q96 = 2 ^ 96 := rfl
  have hfits {n : ℕ} (hn : n ≤ 887272) : mulU128 n Q96 = .ok (n * Q96) := by
    refine fitU_of_lt ?_
    rw [hQ96]
    omega
  rw [tickToSqrtPriceU128, tickToSqrtPrice]
  split
  case isTrue hsign =>
    rw [hfits (by omega), ok_bind]
    refine fitU_of_lt ?_
    rw [hQ96]
    omega
  case isFalse hsign =>
    have habs : fitI32 (-t) = .ok (-t) := if_pos (by omega)
    rw [habs, ok_bind, hfits (by omega), ok_bind]
    rfl

end ClPool

/-! ### The SDK -/

namespace Sdk

/-- The number of the other sign. -/
def negate : Swyft.Js.Number → Swyft.Js.Number
  | .finite q => .finite (-q)
  | .infinite negative => .infinite (!negative)
  | .nan => .nan

/-- `sqrtPriceX96ToTick`. -/
def sqrtPriceX96ToTick (sqrtPriceX96 : ℤ) : Js Swyft.Js.Number := do
  require (¬ sqrtPriceX96 ≤ 0) (.rangeError "sqrtPriceX96 must be positive")
  if Q96 ≤ sqrtPriceX96 then do
    let ratio := sqrtPriceX96 - Q96
    let ticks ← bigDiv (ratio * 20000) Q96
    pure (.ofRat ticks)
  else do
    let ratio := Q96 - sqrtPriceX96
    let ticks ← bigDiv (ratio * 20000) Q96
    pure (negate (.ofRat ticks))

/-- The tick of a price is an `i32`. Below the unit every tick is. -/
def TickFits (p : ℕ) : Prop := (p - ClPool.Q96) * 20000 / ClPool.Q96 < 2 ^ 31

/-- How many ticks a price is away from the unit. -/
theorem bigDiv_ratio (n : ℕ) :
    bigDiv ((n : ℤ) * 20000) Q96 = .ok ((n * 20000 / ClPool.Q96 : ℕ) : ℤ) := by
  rw [Q96_eq, ← bigDiv_natCast ClPool.Q96_pos]
  push_cast
  rfl

/-- The tick of a price, where the contract does not cut it off. -/
theorem sqrtPriceX96ToTick_eq {p : ℕ} (hpos : 0 < p) (hfits : TickFits p) :
    sqrtPriceX96ToTick p = .ok (.finite (ClPool.sqrtPriceToTick p)) := by
  rw [sqrtPriceX96ToTick, require_pos (by omega), ok_bind, ClPool.sqrtPriceToTick,
    if_neg (show ¬ p = 0 by omega)]
  by_cases habove : ClPool.Q96 ≤ p
  · have hticks : (p - ClPool.Q96) * 20000 / ClPool.Q96 < 2 ^ 31 := hfits
    have habove' : Q96 ≤ (p : ℤ) := by
      rw [Q96_eq]
      exact_mod_cast habove
    rw [if_pos habove', if_pos habove, ClPool.scaledTick_eq,
      Nat.min_eq_left (by omega)]
    show (bigDiv (((p : ℤ) - Q96) * 20000) Q96 >>= fun _ => _) = _
    rw [show (p : ℤ) - Q96 = ((p - ClPool.Q96 : ℕ) : ℤ) by rw [Q96_eq, Nat.cast_sub habove],
      bigDiv_ratio, ok_bind, Swyft.Js.Number.ofRat_natCast (by omega)]
    rfl
  · have hticks : (ClPool.Q96 - p) * 20000 / ClPool.Q96 ≤ 20000 :=
      Nat.div_le_of_le_mul (Nat.mul_le_mul_right _ (Nat.sub_le _ _))
    have hbelow' : ¬ Q96 ≤ (p : ℤ) := by
      rw [Q96_eq]
      exact_mod_cast habove
    rw [if_neg hbelow', if_neg habove, ClPool.scaledTick_eq,
      Nat.min_eq_left (by omega)]
    show (bigDiv ((Q96 - (p : ℤ)) * 20000) Q96 >>= fun _ => _) = _
    rw [show Q96 - (p : ℤ) = ((ClPool.Q96 - p : ℕ) : ℤ) by
        rw [Q96_eq, Nat.cast_sub (not_le.mp habove).le],
      bigDiv_ratio, ok_bind, Swyft.Js.Number.ofRat_natCast (by omega)]
    rfl

/-- **The conversions of the SDK and of the contract agree**: of every tick above -20000, up to the
highest one, and of every positive price whose tick is an `i32`. No operator of the contract's
overflows there, nor at any other price. -/
theorem tick_conversions_agree :
    (∀ t : ℤ, -20000 < t → t ≤ 887272 →
      tickToSqrtPriceX96 t = .ok (ClPool.tickToSqrtPrice t : ℕ) ∧
        ClPool.tickToSqrtPriceU128 t = .ok (ClPool.tickToSqrtPrice t)) ∧
    (∀ p : ℕ, 0 < p → p < 2 ^ 128 → TickFits p →
      sqrtPriceX96ToTick p = .ok (.finite (ClPool.sqrtPriceToTick p))) ∧
    ∀ p < 2 ^ 128, ClPool.sqrtPriceToTickU128 p = .ok (ClPool.sqrtPriceToTick p) := by
  refine ⟨fun t hlow hhigh => ⟨?_, ?_⟩, fun p hpos _ hfits => sqrtPriceX96ToTick_eq hpos hfits,
    fun p hp => ClPool.sqrtPriceToTickU128_eq hp⟩
  · exact tickToSqrtPriceX96_eq ⟨by omega, hhigh⟩ (ClPool.tickToSqrtPrice_pos_iff.mpr hlow)
  · exact ClPool.tickToSqrtPriceU128_eq (le_trans (by decide) hlow.le) hhigh

/-- A tick below zero and a price at twice the unit; at tick -20000 the two sides differ. -/
theorem conversions_at_some_ticks :
    tickToSqrtPriceX96 (-60) = .ok (ClPool.tickToSqrtPrice (-60) : ℕ) ∧
      sqrtPriceX96ToTick (2 ^ 97 : ℕ) = .ok (.finite (ClPool.sqrtPriceToTick (2 ^ 97))) ∧
      Yields (tickToSqrtPriceX96 (-20000)) (· = 1) ∧ ClPool.tickToSqrtPrice (-20000) = 0 :=
  ⟨(tick_conversions_agree.1 (-60) (by decide) (by decide)).1,
    tick_conversions_agree.2.1 (2 ^ 97) (by decide) (by decide) (by
      show (2 ^ 97 - ClPool.Q96) * 20000 / ClPool.Q96 < 2 ^ 31
      decide), by decide, by decide⟩

end Sdk

end Swyft
