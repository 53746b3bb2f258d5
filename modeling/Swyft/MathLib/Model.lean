import Swyft.ClPool.PriceMath

/-!
# The mathematics library

The amount and price functions of `packages/contract/contracts/math-lib/src/lib.rs`. Their errors
are values of the type `MathError`, returned by the `checked_*` operations; the plain operators stop
the invocation as everywhere. `Q96` is that of `cl-pool`.
`tick_to_sqrt_price` and `sqrt_price_to_tick`, which none of the functions here uses, are in
`Swyft.MathLib.Ticks`.
-/

namespace Swyft.MathLib

open Checked
open ClPool (Q96)

inductive MathError where
  | invalidTick | priceOutOfBounds | overflow | underflow | divisionByZero
  deriving DecidableEq, Repr

def MathError.code : MathError → ℕ
  | .invalidTick => 1
  | .priceOutOfBounds => 2
  | .overflow => 3
  | .underflow => 4
  | .divisionByZero => 5

/-- An error of the library, as its callers get it. -/
def mathError (e : MathError) : Trap := .contractError e.code

/-! ### Checked operations -/

/-- `checked_mul(..).ok_or(MathError::Overflow)`. -/
def checkedMul (a b : ℕ) : Res ℕ := fitU 128 (mathError .overflow) (a * b)

/-- `checked_add(..).ok_or(MathError::Overflow)`. -/
def checkedAdd (a b : ℕ) : Res ℕ := fitU 128 (mathError .overflow) (a + b)

/-- `checked_sub(..).ok_or(MathError::Underflow)`. -/
def checkedSub (a b : ℕ) : Res ℕ := subU (mathError .underflow) a b

/-- `checked_div(..).ok_or(MathError::DivisionByZero)`. -/
def checkedDiv (a b : ℕ) : Res ℕ := divU (mathError .divisionByZero) a b

/-! ### Amounts -/

/-- `get_amount_0_delta`. -/
def getAmount0Delta (liquidity sqrtLower sqrtUpper sqrtCurrent : ℕ) : Res ℕ :=
  if liquidity = 0 then pure 0
  else if sqrtLower = sqrtUpper then pure 0
  else if sqrtCurrent ≤ sqrtLower then do
    let numerator ← checkedMul liquidity Q96
    checkedDiv numerator sqrtLower
  else if sqrtCurrent < sqrtUpper then do
    let numerator ← checkedMul liquidity Q96
    let amountCurrent ← checkedDiv numerator sqrtCurrent
    let numeratorLower ← checkedMul liquidity Q96
    let amountLower ← checkedDiv numeratorLower sqrtLower
    checkedSub amountCurrent amountLower
  else do
    let numerator ← checkedMul liquidity Q96
    let amountLower ← checkedDiv numerator sqrtLower
    let numeratorUpper ← checkedMul liquidity Q96
    let amountUpper ← checkedDiv numeratorUpper sqrtUpper
    checkedSub amountLower amountUpper

/-- `get_amount_1_delta`. The differences of prices are plain; `Q96` is not zero, so the quotient
is always there. -/
def getAmount1Delta (liquidity sqrtLower sqrtUpper sqrtCurrent : ℕ) : Res ℕ :=
  if liquidity = 0 then pure 0
  else if sqrtUpper ≤ sqrtCurrent then do
    let distance ← subU128 sqrtUpper sqrtLower
    let product ← checkedMul liquidity distance
    pure (product / Q96)
  else if sqrtLower < sqrtCurrent then do
    let distance ← subU128 sqrtCurrent sqrtLower
    let product ← checkedMul liquidity distance
    pure (product / Q96)
  else pure 0

/-! ### Prices -/

/-- `next_sqrt_price_0`. -/
def nextSqrtPrice0 (sqrtPrice liquidity amountIn : ℕ) (zeroForOne : Bool) : Res ℕ :=
  if liquidity = 0 then .error (mathError .divisionByZero)
  else if zeroForOne then do
    let numerator ← checkedMul liquidity amountIn
    let denominator ← checkedDiv numerator sqrtPrice
    checkedSub sqrtPrice denominator
  else do
    let numerator ← checkedMul liquidity sqrtPrice
    let denominator ← checkedDiv numerator Q96
    let sum ← checkedAdd denominator amountIn
    let numerator ← checkedMul liquidity Q96
    checkedDiv numerator sum

/-- `next_sqrt_price_1`. -/
def nextSqrtPrice1 (sqrtPrice liquidity amountIn : ℕ) (zeroForOne : Bool) : Res ℕ :=
  if liquidity = 0 then .error (mathError .divisionByZero)
  else do
    let scaled ← checkedMul amountIn Q96
    let quotient ← checkedDiv scaled liquidity
    if zeroForOne then checkedAdd sqrtPrice quotient
    else checkedSub sqrtPrice quotient

end Swyft.MathLib
