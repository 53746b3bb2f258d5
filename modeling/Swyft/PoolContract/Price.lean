import Swyft.ClPool.TickTable

/-!
# Prices and amounts of the pool contract

The pure functions of `packages/contract/contracts/pool/src/lib.rs`. This contract has a price model
of its own: `tick_to_sqrt_price` raises 1.0001 to the tick at a scale of `10 ^ 12` and takes an
integer square root, and `sqrt_price_to_tick` searches for the tick by bisection.

The constants `Q96`, `MIN_TICK` and `MAX_TICK` and the tick spacings are those of `cl-pool`.

## Main definitions

* `tickToSqrtPrice`, `sqrtPriceToTick` — the price model
* `getAmount0`, `getAmount1` — what `mint` charges and `burn` pays
* `nextSqrtPriceFromInput` — where a swap takes the price
-/

namespace Swyft.PoolContract

open Checked
open ClPool (Q96 minTick maxTick)

inductive PoolError where
  | notInitialized | alreadyInitialized | invalidTick | invalidTickRange | zeroLiquidity | overflow
  | insufficientLiquidity | invalidTickSpacing
  deriving DecidableEq, Repr

def PoolError.code : PoolError → ℕ
  | .notInitialized => 1
  | .alreadyInitialized => 2
  | .invalidTick => 3
  | .invalidTickRange => 4
  | .zeroLiquidity => 5
  | .overflow => 6
  | .insufficientLiquidity => 7
  | .invalidTickSpacing => 8

/-- `panic_with_pool_error`. -/
def poolError (e : PoolError) : Trap := .contractError e.code

/-! ### Ticks and prices -/

/-- The loop of `isqrt`. The estimate falls in every round, so `n` rounds are enough; it stays
positive, so the division is never by zero. -/
def isqrtLoop (n : ℕ) : (rounds x y : ℕ) → ℕ
  | 0, x, _ => x
  | rounds + 1, x, y => if y < x then isqrtLoop n rounds y ((y + n / y) / 2) else x

/-- `isqrt`. -/
def isqrt (n : ℕ) : ℕ := if n = 0 then 0 else isqrtLoop n n n ((n + 1) / 2)

/-- `SCALE`. -/
def scale : ℕ := 1000000000000

/-- The loop of `tick_to_sqrt_price`, one round a binary digit of `exp`. -/
def powLoop : (rounds result base exp : ℕ) → ℕ
  | 0, result, _, _ => result
  | rounds + 1, result, base, exp =>
    if exp = 0 then result
    else
      let result := if exp % 2 = 1 then satMul 128 result base / scale else result
      powLoop rounds result (satMul 128 base base / scale) (exp / 2)

/-- `tick_to_sqrt_price`. -/
def tickToSqrtPrice (tick : ℤ) : ℕ :=
  if tick = 0 then Q96
  else
    let sqrt := isqrt (powLoop 64 scale (10001 * scale / 10000) tick.natAbs)
    if 0 < tick then satMul 128 sqrt (Q96 / 1000000)
    else if sqrt = 0 then Q96
    else satMul 128 Q96 1000000 / sqrt

/-- The bisection of `sqrt_price_to_tick`; the interval shrinks in every round. -/
def tickSearch (sqrtPriceX96 : ℕ) : (rounds : ℕ) → (lo hi : ℤ) → ℤ
  | 0, lo, _ => lo
  | rounds + 1, lo, hi =>
    if lo < hi then
      let mid := lo + (hi - lo + 1) / 2
      if tickToSqrtPrice mid ≤ sqrtPriceX96 then tickSearch sqrtPriceX96 rounds mid hi
      else tickSearch sqrtPriceX96 rounds lo (mid - 1)
    else lo

/-- `sqrt_price_to_tick`. -/
def sqrtPriceToTick (sqrtPriceX96 : ℕ) : ℤ :=
  if sqrtPriceX96 = 0 then minTick
  else tickSearch sqrtPriceX96 (maxTick - minTick).toNat minTick maxTick

theorem isqrtLoop_le (n : ℕ) : ∀ rounds x y, isqrtLoop n rounds x y ≤ x := by
  intro rounds
  induction rounds with
  | zero => exact fun _ _ => le_rfl
  | succ rounds ih =>
    intro x y
    rw [isqrtLoop]
    split
    case isTrue hlt => exact (ih _ _).trans hlt.le
    case isFalse => exact le_rfl

theorem isqrt_le (n : ℕ) : isqrt n ≤ n := by
  rw [isqrt]
  split
  · exact Nat.zero_le n
  · exact isqrtLoop_le _ _ _ _

theorem satMul_lt (w a b : ℕ) : satMul w a b < 2 ^ w := by
  have := Nat.two_pow_pos w
  rw [satMul]
  omega

/-- Saturation keeps the powers far below a word. -/
theorem powLoop_le : ∀ rounds {result : ℕ} (base exp : ℕ), result ≤ 2 ^ 89 →
    powLoop rounds result base exp ≤ 2 ^ 89 := by
  intro rounds
  induction rounds with
  | zero => exact fun _ _ h => h
  | succ rounds ih =>
    intro result base exp h
    rw [powLoop]
    split
    case isTrue => exact h
    case isFalse =>
      refine ih _ _ ?_
      split
      case isTrue =>
        have := satMul_lt 128 result base
        rw [scale]
        omega
      case isFalse => exact h

/-- A price is zero or not tiny. -/
theorem tickToSqrtPrice_ne_one (tick : ℤ) :
    tickToSqrtPrice tick = 0 ∨ 2 ≤ tickToSqrtPrice tick := by
  rw [tickToSqrtPrice]
  have hunit : 2 ≤ Q96 := by decide
  have hstart : scale ≤ 2 ^ 89 := by decide
  have hsqrt := (isqrt_le _).trans (powLoop_le 64 (10001 * scale / 10000) tick.natAbs hstart)
  generalize isqrt (powLoop 64 scale (10001 * scale / 10000) tick.natAbs) = sqrt at hsqrt
  split
  · exact .inr hunit
  split
  · rcases Nat.eq_zero_or_pos sqrt with rfl | hpos
    · left
      rw [satMul, Nat.zero_mul, Nat.zero_min]
    · right
      have hbig : 2 ≤ Q96 / 1000000 := by decide
      have := Nat.mul_le_mul hpos hbig
      rw [satMul]
      omega
  show (if sqrt = 0 then Q96 else satMul 128 Q96 1000000 / sqrt) = 0 ∨
    2 ≤ if sqrt = 0 then Q96 else satMul 128 Q96 1000000 / sqrt
  split
  · exact .inr hunit
  · right
    have hconst : satMul 128 Q96 1000000 = Q96 * 1000000 := satMul_of_lt (by decide)
    have hbig : 2 * 2 ^ 89 ≤ Q96 * 1000000 := by decide
    rw [hconst, Nat.le_div_iff_mul_le (by omega)]
    omega

/-! ### Amounts -/

/-- `get_amount_0`. -/
def getAmount0 (liquidity sqrtLower sqrtUpper sqrtCurrent : ℕ) : ℕ :=
  if sqrtUpper ≤ sqrtCurrent ∨ sqrtLower = 0 ∨ sqrtUpper = 0 then 0
  else
    let sa := max sqrtCurrent sqrtLower
    satSub (satMul 128 liquidity Q96 / sa) (satMul 128 liquidity Q96 / sqrtUpper)

/-- `get_amount_1`. -/
def getAmount1 (liquidity sqrtLower sqrtUpper sqrtCurrent : ℕ) : ℕ :=
  if sqrtCurrent ≤ sqrtLower then 0
  else
    let sb := min sqrtCurrent sqrtUpper
    satMul 128 liquidity (satSub sb sqrtLower) / Q96

theorem satMul_zero_left (w b : ℕ) : satMul w 0 b = 0 := by
  rw [satMul, Nat.zero_mul, Nat.zero_min]

/-- No liquidity is worth nothing. -/
@[simp] theorem getAmount0_zero (lower upper price : ℕ) : getAmount0 0 lower upper price = 0 := by
  simp [getAmount0, satMul_zero_left, satSub]

@[simp] theorem getAmount1_zero (lower upper price : ℕ) : getAmount1 0 lower upper price = 0 := by
  simp [getAmount1, satMul_zero_left]

theorem getAmount0_lt (n upper price : ℕ) (lower : ℤ) :
    getAmount0 n (tickToSqrtPrice lower) upper price < 2 ^ 127 := by
  rw [getAmount0]
  split
  · decide
  case isFalse h =>
    have hlower : 2 ≤ tickToSqrtPrice lower := by
      rcases tickToSqrtPrice_ne_one lower with h0 | h2
      · exact absurd (.inr (.inl h0)) h
      · exact h2
    have hhalf : satMul 128 n Q96 / max price (tickToSqrtPrice lower) ≤ satMul 128 n Q96 / 2 :=
      Nat.div_le_div_left (hlower.trans (le_max_right _ _)) (by decide)
    have hword := satMul_lt 128 n Q96
    refine lt_of_le_of_lt (Nat.sub_le _ _) (lt_of_le_of_lt hhalf ?_)
    omega

theorem getAmount1_lt (n lower upper price : ℕ) : getAmount1 n lower upper price < 2 ^ 127 := by
  rw [getAmount1]
  split
  · decide
  · have := satMul_lt 128 n (satSub (min price upper) lower)
    rw [Nat.div_lt_iff_lt_mul ClPool.Q96_pos, Q96]
    omega

/-! ### Swaps -/

/-- `next_sqrt_price_from_input`. -/
def nextSqrtPriceFromInput (sqrtPrice liquidity amountIn : ℕ) (zeroForOne : Bool) : Res ℕ := do
  if liquidity = 0 then pure sqrtPrice
  else if zeroForOne then do
    let product ← mulU128 amountIn sqrtPrice
    let denom ← addU128 liquidity (product / Q96)
    if denom = 0 then pure sqrtPrice
    else do
      let numerator ← mulU128 liquidity sqrtPrice
      divU128 numerator denom
  else do
    let product ← mulU128 amountIn Q96
    let rise ← divU128 product liquidity
    addU128 sqrtPrice rise

/-- `get_amount_1_out`. -/
def getAmount1Out (liquidity newSqrt oldSqrt : ℕ) : Res ℕ := do
  if oldSqrt ≤ newSqrt then pure 0
  else do
    let product ← mulU128 liquidity (oldSqrt - newSqrt)
    pure (product / Q96)

/-- `get_amount_0_out`. -/
def getAmount0Out (liquidity oldSqrt newSqrt : ℕ) : Res ℕ := do
  if newSqrt = 0 ∨ oldSqrt = 0 ∨ oldSqrt ≤ newSqrt then pure 0
  else do
    let scaled ← mulU128 liquidity Q96
    subU128 (scaled / newSqrt) (scaled / oldSqrt)

end Swyft.PoolContract
