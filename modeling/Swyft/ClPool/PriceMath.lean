import Swyft.Host
import Mathlib.Tactic.Ring
import Mathlib.Tactic.Linarith
import Mathlib.Algebra.Order.Ring.Int

/-!
# Prices, ticks and amounts

The pure functions of `packages/contract/contracts/cl-pool/src/lib.rs`: the linear tick model, the
amounts a piece of liquidity is worth, and the amounts a price move consumes and pays.

Only the functions the source writes with plain operators can stop; those written with
`saturating_*` are total.
-/

namespace Swyft.ClPool

open Checked

/-- `Q96`, the fixed-point unit. -/
def Q96 : ℕ := 2 ^ 96

/-- `FEE_DENOMINATOR`. -/
def feeDenominator : ℕ := 1000000

/-- `MIN_TICK`. -/
def minTick : ℤ := -887272

/-- `MAX_TICK`. -/
def maxTick : ℤ := 887272

/-- `MAX_SWAP_ITERATIONS`. -/
def maxSwapIterations : ℕ := 255

inductive PoolError where
  | notInitialized | alreadyInitialized | invalidTickRange | zeroLiquidity | positionNotFound
  | unauthorized | invalidTick | overflow | insufficientLiquidity | invalidFeeTier | invalidNftLink
  deriving DecidableEq, Repr

def PoolError.code : PoolError → ℕ
  | .notInitialized => 1
  | .alreadyInitialized => 2
  | .invalidTickRange => 3
  | .zeroLiquidity => 4
  | .positionNotFound => 5
  | .unauthorized => 6
  | .invalidTick => 7
  | .overflow => 8
  | .insufficientLiquidity => 9
  | .invalidFeeTier => 10
  | .invalidNftLink => 11

/-- `panic_pool_error`. -/
def poolError (e : PoolError) : Trap := .contractError e.code

/-! ### Ticks and prices -/

/-- The closure `scaled` of `sqrt_price_to_tick`. -/
def scaledTick (diff : ℕ) : ℕ :=
  min (diff / Q96 * 20000 + diff % Q96 * 20000 / Q96) (2 ^ 31 - 1)

/-- `sqrt_price_to_tick`. -/
def sqrtPriceToTick (sqrtPriceX96 : ℕ) : ℤ :=
  if sqrtPriceX96 = 0 then 0
  else if Q96 ≤ sqrtPriceX96 then scaledTick (sqrtPriceX96 - Q96)
  else -scaledTick (Q96 - sqrtPriceX96)

/-- `tick_to_sqrt_price`. -/
def tickToSqrtPrice (tick : ℤ) : ℕ :=
  if 0 ≤ tick then Q96 + tick.toNat * Q96 / 20000
  else satSub Q96 ((-tick).toNat * Q96 / 20000)

theorem Q96_pos : 0 < Q96 := Nat.two_pow_pos 96

/-- A higher tick has a price at least as high. -/
theorem tickToSqrtPrice_mono {s t : ℤ} (h : s ≤ t) : tickToSqrtPrice s ≤ tickToSqrtPrice t := by
  simp only [tickToSqrtPrice, satSub]
  split_ifs with hs ht ht
  · have : s.toNat * Q96 / 20000 ≤ t.toNat * Q96 / 20000 :=
      Nat.div_le_div_right (Nat.mul_le_mul_right _ (by omega))
    omega
  · omega
  · omega
  · have : (-t).toNat * Q96 / 20000 ≤ (-s).toNat * Q96 / 20000 :=
      Nat.div_le_div_right (Nat.mul_le_mul_right _ (by omega))
    omega

/-! ### Amounts -/

/-- `x.clamp(lo, hi)`. -/
def clamp (x lo hi : ℕ) : ℕ := min (max x lo) hi

/-- The first component of `amounts_for_liquidity`. It does not look at the current price. -/
def principal0 (liquidity sqrtLower sqrtUpper : ℕ) : ℕ :=
  liquidity * Q96 / sqrtLower - liquidity * Q96 / sqrtUpper

/-- The second component of `amounts_for_liquidity`. -/
def principal1 (liquidity sqrtLower sqrtUpper sqrtCurrent : ℕ) : ℕ :=
  liquidity * (clamp sqrtCurrent sqrtLower sqrtUpper - sqrtLower) / Q96

/-- `amounts_for_liquidity`, with `clamp`'s own assertion. -/
def amountsForLiquidity (liquidity sqrtLower sqrtUpper sqrtCurrent : ℕ) : Res (ℕ × ℕ) := do
  require (sqrtLower ≤ sqrtUpper) (.panic "assertion failed: min <= max")
  let current := clamp sqrtCurrent sqrtLower sqrtUpper
  let scaled ← mulU128 liquidity Q96
  let atLower ← divU128 scaled sqrtLower
  let atUpper ← divU128 scaled sqrtUpper
  let amount0 ← subU128 atLower atUpper
  let distance ← subU128 current sqrtLower
  let product ← mulU128 liquidity distance
  pure (amount0, product / Q96)

/-- `next_sqrt_price_from_input`. -/
def nextSqrtPriceFromInput (sqrtPrice liquidity amountIn : ℕ) (zeroForOne : Bool) : Res ℕ := do
  if liquidity = 0 then pure sqrtPrice
  else if zeroForOne then do
    let product ← mulU128 amountIn sqrtPrice
    let denom ← addU128 liquidity (product / Q96)
    if denom = 0 then pure sqrtPrice
    else do
      let numerator ← mulU128 liquidity sqrtPrice
      divU128 numerator denom
  else do
    let scaled ← mulU128 amountIn Q96
    let step ← divU128 scaled liquidity
    addU128 sqrtPrice step

/-- `q` or `q + 1`, the common rounding of `get_amount_0_delta` and `get_amount_1_delta`. -/
def roundQuotient (numerator denominator : ℕ) (roundUp : Bool) : ℕ :=
  if roundUp ∧ 0 < numerator % denominator then satAdd 128 (numerator / denominator) 1
  else numerator / denominator

/-- `get_amount_0_delta`. -/
def getAmount0Delta (sqrtA sqrtB liquidity : ℕ) (roundUp : Bool) : ℕ :=
  if sqrtA = sqrtB ∨ liquidity = 0 then 0
  else
    let lower := min sqrtA sqrtB
    let upper := max sqrtA sqrtB
    if lower = 0 then satMul 128 liquidity Q96 / upper
    else roundQuotient (satMul 128 liquidity (upper - lower))
      (satMul 128 (max (upper / Q96) 1) lower) roundUp

/-- `get_amount_1_delta`. -/
def getAmount1Delta (sqrtA sqrtB liquidity : ℕ) (roundUp : Bool) : ℕ :=
  if sqrtA = sqrtB ∨ liquidity = 0 then 0
  else roundQuotient (satMul 128 liquidity (max sqrtA sqrtB - min sqrtA sqrtB)) Q96 roundUp

/-- `fee_growth_inside`: the whole global growth in range, nothing out of range. -/
def feeGrowthInside (feeGrowthGlobal : ℕ) (tickLower tickUpper currentTick : ℤ) : ℕ :=
  if tickLower ≤ currentTick ∧ currentTick < tickUpper then feeGrowthGlobal else 0

/-- `checked_fee`. -/
def checkedFee (amount feeTier : ℕ) : Res ℕ := do
  let product ← fitU 128 (poolError .overflow) (amount * feeTier)
  pure (product / feeDenominator)

/-- `to_i128`. -/
def toI128 (amount : ℕ) : Res ℤ := do
  require (amount ≤ i128Max) (poolError .overflow)
  pure amount

theorem clamp_bounds {x lo hi : ℕ} (h : lo ≤ hi) : lo ≤ clamp x lo hi ∧ clamp x lo hi ≤ hi := by
  simp only [clamp]; omega

/-- The exact conditions under which `amounts_for_liquidity` does not stop. -/
theorem amountsForLiquidity_eq_ok {l lo hi p a0 a1 : ℕ} :
    amountsForLiquidity l lo hi p = .ok (a0, a1) ↔
      lo ≤ hi ∧ 0 < lo ∧ l * Q96 < 2 ^ 128 ∧ l * (clamp p lo hi - lo) < 2 ^ 128 ∧
        a0 = principal0 l lo hi ∧ a1 = principal1 l lo hi p := by
  simp only [amountsForLiquidity, bind_eq_ok, require_eq_ok, exists_const, mulU128_eq_ok,
    divU128_eq_ok, subU128_eq_ok, pure_eq_ok, Prod.mk.injEq]
  constructor
  · rintro ⟨hle, _, ⟨hs, rfl⟩, _, ⟨hlo, rfl⟩, _, ⟨-, rfl⟩, _, ⟨-, rfl⟩, _, ⟨-, rfl⟩, _, ⟨hp, rfl⟩,
      rfl, rfl⟩
    exact ⟨hle, by omega, hs, hp, rfl, rfl⟩
  · rintro ⟨hle, hlo, hs, hp, rfl, rfl⟩
    have hdiv : l * Q96 / hi ≤ l * Q96 / lo := Nat.div_le_div_left hle hlo
    exact ⟨hle, _, ⟨hs, rfl⟩, _, ⟨by omega, rfl⟩, _, ⟨by omega, rfl⟩, _, ⟨hdiv, rfl⟩, _,
      ⟨(clamp_bounds hle).1, rfl⟩, _, ⟨hp, rfl⟩, rfl, rfl⟩

theorem amountsForLiquidity_of_fits {l lo hi p : ℕ} (hle : lo ≤ hi) (hlo : 0 < lo)
    (hs : l * Q96 < 2 ^ 128) (hp : l * (clamp p lo hi - lo) < 2 ^ 128) :
    amountsForLiquidity l lo hi p = .ok (principal0 l lo hi, principal1 l lo hi p) :=
  amountsForLiquidity_eq_ok.mpr ⟨hle, hlo, hs, hp, rfl, rfl⟩

theorem checkedFee_eq_ok {amount feeTier fee : ℕ} :
    checkedFee amount feeTier = .ok fee ↔
      amount * feeTier < 2 ^ 128 ∧ amount * feeTier / feeDenominator = fee := by
  simp only [checkedFee, bind_eq_ok, fitU_eq_ok, pure_eq_ok]
  constructor
  · rintro ⟨_, ⟨h, rfl⟩, rfl⟩; exact ⟨h, rfl⟩
  · rintro ⟨h, rfl⟩; exact ⟨_, ⟨h, rfl⟩, rfl⟩

theorem toI128_eq_ok {amount : ℕ} {x : ℤ} :
    toI128 amount = .ok x ↔ amount ≤ i128Max ∧ (amount : ℤ) = x := by
  simp only [toI128, bind_eq_ok, require_eq_ok, exists_const, pure_eq_ok]

end Swyft.ClPool
