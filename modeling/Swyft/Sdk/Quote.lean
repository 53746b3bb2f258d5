import Swyft.Js
import Swyft.Sdk.PositionMath
import Mathlib.Data.List.Sort
import Mathlib.Data.Rat.Defs

/-!
# Quotes for a swap

`getSwapQuote` of `packages/sdk/src/quote.ts`, which the package recommends for a precise quote
over the whole ladder of ticks. It walks the ticks in the direction of the swap, and on each
segment compares what `computeSwapStep` takes to reach the tick with what is left of the input.

A number of the language is `none` when it is not finite. The price impact is computed in floating
point and is left out, and so is the counter of crossed ticks, which nothing reads. Subtracting
the slippage from ten thousand rounds to a double; that operation is the parameter `lessSlippage`.

## Main definitions

* `getSwapQuote` — the source function
* `segmentIn`, `segmentOut` — what a whole segment takes in and gives out, on naturals

## Main results

* `computeSwapStep_eq` — one step towards a tick ahead of the price
-/

namespace Swyft.Sdk

open Checked

/-- A number: a rational, or one of the values that are not finite. -/
abbrev Number := Option ℚ

/-- What `getSwapQuote` reads of a tick. -/
structure TickState where
  tick : ℤ
  sqrtPriceX96 : String
  deriving DecidableEq

/-- What `getSwapQuote` reads of a pool. -/
structure PoolState where
  token0 : String
  token1 : String
  sqrtPriceX96 : String
  liquidity : String
  feeTier : Number
  ticks : Option (List TickState)

/-- The type `string | bigint` of the amount. -/
inductive Amount where
  | text (s : String)
  | bigint (n : ℤ)

structure LocalSwapQuoteParams where
  poolState : PoolState
  tokenIn : String
  amountIn : Amount
  slippage : Number

structure LocalSwapQuote where
  amountOut : String
  fee : String
  minimumReceived : String
  sqrtPriceLimitX96 : String
  deriving DecidableEq

/-- `new QuoteValidationError`. -/
def invalidQuote (message : String) : Thrown := .quoteValidationError message

/-- `BigInt(text)`. -/
def readBigInt (text : String) : Js ℤ :=
  getOr (.syntaxError ("Cannot convert " ++ text ++ " to a BigInt")) (Js.bigInt text)

@[simp] theorem readBigInt_eq_ok {text : String} {n : ℤ} :
    readBigInt text = .ok n ↔ Js.bigInt text = some n := getOr_eq_ok

/-- `BigInt(number)`, which takes integers only. -/
def integerBigInt (x : ℚ) : Js ℤ :=
  if x.den = 1 then pure x.num
  else .error (.rangeError "cannot be converted to a BigInt because it is not an integer")

/-- `validateSlippage`, returning the number it accepts. -/
def validateSlippage (slippage : Number) : Js ℚ := do
  let message := "slippage must be between 0 and 10000 basis points"
  let x ← getOr (invalidQuote message) slippage
  require (0 ≤ x ∧ x ≤ 10000) (invalidQuote message)
  pure x

/-- `validateFeeTier`, returning the number it accepts as an integer. -/
def validateFeeTier (feeTier : Number) : Js ℤ := do
  let message := "feeTier must be a positive integer"
  let x ← getOr (invalidQuote message) feeTier
  require (x.den = 1 ∧ 0 < x) (invalidQuote message)
  pure x.num

/-- `direction`. -/
def direction (poolState : PoolState) (tokenIn : String) : Js Bool :=
  if tokenIn = poolState.token0 then pure true
  else if tokenIn = poolState.token1 then pure false
  else .error (invalidQuote "invalid token direction")

/-- `toBigIntAmount`. -/
def toBigIntAmount : Amount → ℤ
  | .bigint n => n
  | .text s => (Js.bigInt s).getD 0

structure SwapStepResult where
  amountIn : ℤ
  amountOut : ℤ
  nextSqrtPrice : ℤ
  reachedTarget : Bool

/-- `sqrtPriceNext` of `computeSwapStep`: the target, unless it lies behind the price. -/
def stepTarget (sqrtPriceCurrent sqrtPriceTarget : ℤ) (zeroForOne : Bool) : ℤ :=
  if zeroForOne then
    if sqrtPriceTarget < sqrtPriceCurrent then sqrtPriceTarget else sqrtPriceCurrent
  else if sqrtPriceCurrent < sqrtPriceTarget then sqrtPriceTarget else sqrtPriceCurrent

/-- `amountIn` of `computeSwapStep`. -/
def stepIn (liquidity current next : ℤ) (zeroForOne : Bool) : Js ℤ :=
  if zeroForOne then bigDiv (liquidity * (current - next)) current
  else bigDiv (liquidity * (next - current)) next

/-- `amountOut` of `computeSwapStep`. -/
def stepOut (liquidity current next : ℤ) (zeroForOne : Bool) : Js ℤ :=
  if zeroForOne then bigDiv (liquidity * (current - next)) next
  else bigDiv (liquidity * (next - current)) current

/-- `computeSwapStep`. -/
def computeSwapStep (sqrtPriceCurrent sqrtPriceTarget liquidity amountRemaining : ℤ)
    (zeroForOne : Bool) : Js SwapStepResult := do
  let sqrtPriceNext := stepTarget sqrtPriceCurrent sqrtPriceTarget zeroForOne
  let reachedTarget := decide (sqrtPriceNext = sqrtPriceTarget)
  let amountIn ← stepIn liquidity sqrtPriceCurrent sqrtPriceNext zeroForOne
  let amountOut ← stepOut liquidity sqrtPriceCurrent sqrtPriceNext zeroForOne
  if amountRemaining < amountIn then do
    let partialOut ← bigDiv (amountOut * amountRemaining) amountIn
    pure {
      amountIn := amountRemaining
      amountOut := partialOut
      nextSqrtPrice := sqrtPriceCurrent
      reachedTarget := false }
  else pure { amountIn, amountOut, nextSqrtPrice := sqrtPriceNext, reachedTarget }

/-- The variables of the loop of `getSwapQuote`. -/
structure QuoteState where
  remainingIn : ℤ
  totalOut : ℤ
  sqrtPrice : ℤ

/-- The loop of `getSwapQuote`, over the sorted ticks. -/
def quoteLoop (liquidity : ℤ) (zeroForOne : Bool) : List TickState → QuoteState → Js QuoteState
  | [], st => pure st
  | tick :: ticks, st =>
    if st.remainingIn ≤ 0 then pure st
    else do
      let target ← readBigInt tick.sqrtPriceX96
      let step ← computeSwapStep st.sqrtPrice target liquidity st.remainingIn zeroForOne
      let st' : QuoteState :=
        { remainingIn := st.remainingIn - step.amountIn
          totalOut := st.totalOut + step.amountOut
          sqrtPrice := step.nextSqrtPrice }
      if step.reachedTarget then quoteLoop liquidity zeroForOne ticks st' else pure st'

/-- The comparison of the ticks: downwards for a swap of token 0, upwards otherwise. -/
def InOrder (zeroForOne : Bool) (a b : TickState) : Prop :=
  if zeroForOne then b.tick ≤ a.tick else a.tick ≤ b.tick

instance (zeroForOne : Bool) : DecidableRel (InOrder zeroForOne) := fun a b => by
  unfold InOrder
  infer_instance

/-- The ticks in the direction of the swap, by a stable sort. -/
def sortTicks (zeroForOne : Bool) (ticks : List TickState) : List TickState :=
  ticks.insertionSort (InOrder zeroForOne)

theorem mem_sortTicks {zeroForOne : Bool} {s : TickState} {ticks : List TickState} :
    s ∈ sortTicks zeroForOne ticks ↔ s ∈ ticks := List.mem_insertionSort _

/-- `getSwapQuote`. -/
def getSwapQuote (lessSlippage : ℚ → ℚ) (d : LocalSwapQuoteParams) : Js LocalSwapQuote := do
  let slippage ← validateSlippage d.slippage
  let feeTier ← validateFeeTier d.poolState.feeTier
  let amountIn := toBigIntAmount d.amountIn
  require (0 < amountIn) (invalidQuote "amountIn must be greater than zero")
  let zeroForOne ← direction d.poolState d.tokenIn
  let sqrtPrice ← readBigInt d.poolState.sqrtPriceX96
  let liquidity ← readBigInt d.poolState.liquidity
  require (0 < liquidity) (invalidQuote "zero liquidity")
  let feeAmount ← bigDiv (amountIn * feeTier) 1000000
  let sortedTicks := sortTicks zeroForOne (d.poolState.ticks.getD [])
  let final ← quoteLoop liquidity zeroForOne sortedTicks
    { remainingIn := amountIn - feeAmount, totalOut := 0, sqrtPrice }
  require (final.remainingIn ≤ 0) (invalidQuote "amount exceeds available liquidity")
  require (0 < final.totalOut) (invalidQuote "zero liquidity")
  let kept ← integerBigInt (lessSlippage slippage)
  let minimumReceived ← bigDiv (final.totalOut * kept) 10000
  pure {
    amountOut := toString final.totalOut
    fee := toString feeAmount
    minimumReceived := toString minimumReceived
    sqrtPriceLimitX96 := toString final.sqrtPrice }

/-! ### A step towards a tick ahead -/

/-- What a whole segment takes in. -/
def segmentIn (zeroForOne : Bool) (liquidity current target : ℕ) : ℕ :=
  if zeroForOne then liquidity * (current - target) / current
  else liquidity * (target - current) / target

/-- What a whole segment gives out. -/
def segmentOut (zeroForOne : Bool) (liquidity current target : ℕ) : ℕ :=
  if zeroForOne then liquidity * (current - target) / target
  else liquidity * (target - current) / current

/-- A price that lies ahead of another in the direction of a swap. -/
def Ahead (zeroForOne : Bool) (current target : ℕ) : Prop :=
  if zeroForOne then target < current else current < target

instance (zeroForOne : Bool) (current target : ℕ) : Decidable (Ahead zeroForOne current target) := by
  unfold Ahead
  infer_instance

section Step

variable {zeroForOne : Bool} {l c t r : ℕ}

theorem stepTarget_of_ahead (h : Ahead zeroForOne c t) : stepTarget c t zeroForOne = t := by
  cases zeroForOne <;> simp only [Ahead, if_true, Bool.false_eq_true, if_false] at h <;>
    simp [stepTarget, h]

theorem stepIn_eq (h : Ahead zeroForOne c t) :
    stepIn l c t zeroForOne = .ok (segmentIn zeroForOne l c t : ℕ) := by
  cases zeroForOne <;> simp only [Ahead, if_true, Bool.false_eq_true, if_false] at h
  · simp only [stepIn, segmentIn, Bool.false_eq_true, if_false]
    rw [← Nat.cast_sub h.le, ← Nat.cast_mul, bigDiv_natCast (by omega)]
  · simp only [stepIn, segmentIn, if_true]
    rw [← Nat.cast_sub h.le, ← Nat.cast_mul, bigDiv_natCast (by omega)]

/-- The nearer to zero of the two prices must be positive. -/
theorem stepOut_eq_ok (h : Ahead zeroForOne c t) {x : ℤ} :
    stepOut l c t zeroForOne = .ok x ↔
      0 < min c t ∧ x = (segmentOut zeroForOne l c t : ℕ) := by
  cases zeroForOne <;> simp only [Ahead, if_true, Bool.false_eq_true, if_false] at h
  · rw [min_eq_left h.le]
    simp only [stepOut, segmentOut, Bool.false_eq_true, if_false]
    rcases Nat.eq_zero_or_pos c with rfl | hc
    · simp [bigDiv, divI]
    · rw [← Nat.cast_sub h.le, ← Nat.cast_mul, bigDiv_natCast hc]
      simp [hc, eq_comm]
  · rw [min_eq_right h.le]
    simp only [stepOut, segmentOut, if_true]
    rcases Nat.eq_zero_or_pos t with rfl | ht
    · simp [bigDiv, divI]
    · rw [← Nat.cast_sub h.le, ← Nat.cast_mul, bigDiv_natCast ht]
      simp [ht, eq_comm]

/-- **One step** towards a tick ahead of the price, with `r` left to trade: to the tick if that
takes at most `r`, and otherwise a share of the segment in proportion to `r`. -/
theorem computeSwapStep_eq (h : Ahead zeroForOne c t) {s : SwapStepResult} :
    computeSwapStep c t l r zeroForOne = .ok s ↔ 0 < min c t ∧
      s = if segmentIn zeroForOne l c t ≤ r then
          ⟨segmentIn zeroForOne l c t, segmentOut zeroForOne l c t, t, true⟩
        else ⟨r, (segmentOut zeroForOne l c t * r / segmentIn zeroForOne l c t : ℕ), c, false⟩ := by
  simp only [computeSwapStep, stepTarget_of_ahead h, stepIn_eq h, ok_bind, bind_eq_ok,
    stepOut_eq_ok h]
  constructor
  · rintro ⟨_, ⟨hpos, rfl⟩, hs⟩
    refine ⟨hpos, ?_⟩
    by_cases hle : segmentIn zeroForOne l c t ≤ r
    · rw [if_neg (by omega)] at hs
      rw [if_pos hle]
      simpa using (pure_eq_ok.mp hs).symm
    · rw [if_pos (by omega), ← Nat.cast_mul, bigDiv_natCast (by omega), ok_bind] at hs
      rw [if_neg hle]
      exact (pure_eq_ok.mp hs).symm
  · rintro ⟨hpos, rfl⟩
    refine ⟨_, ⟨hpos, rfl⟩, ?_⟩
    by_cases hle : segmentIn zeroForOne l c t ≤ r
    · rw [if_neg (by omega), if_pos hle]
      simp [pure, Except.pure]
    · rw [if_pos (by omega), ← Nat.cast_mul, bigDiv_natCast (by omega), ok_bind, if_neg hle]
      rfl

end Step

/-- A loop without input left is over. -/
theorem quoteLoop_done {liquidity : ℤ} {zeroForOne : Bool} {ticks : List TickState}
    {st : QuoteState} (h : st.remainingIn ≤ 0) :
    quoteLoop liquidity zeroForOne ticks st = .ok st := by
  cases ticks with
  | nil => rfl
  | cons tick ticks => rw [quoteLoop, if_pos h]; rfl

end Swyft.Sdk
