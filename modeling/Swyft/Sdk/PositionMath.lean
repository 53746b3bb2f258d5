import Swyft.ClPool.PriceMath

/-!
# What a position is worth, in the client package

`packages/sdk/src/position-math.ts` works out the two amounts behind a position by itself, on
integers of any size. Its documentation says that `getAmountsForLiquidity` mirrors
`amounts_for_liquidity` of the pool contract.

The two agree on token 1. On token 0 they differ as soon as the price has entered the range: the
contract always charges what lies between the two bounds of the range, the client what lies
between the lower bound and the price, and nothing above the range.

## Main definitions

* `Js`, `bigDiv` — a function of the package, which returns or throws; division of two `bigint`s
* `getAmountsForLiquidity` — the source function, on all integers

## Main results

* `getAmountsForLiquidity_eq` — its value for a position with a proper range
* `amount1_mirrors` — token 1 always agrees with the contract
* `amounts_mirror_iff` — when both amounts agree
-/

namespace Swyft.Sdk

open Checked

/-! ### The package's functions -/

/-- What a function of the package throws. -/
inductive Thrown where
  | rangeError (message : String)
  | syntaxError (message : String)
  | quoteValidationError (message : String)
  deriving DecidableEq, Repr

/-- A function of the package returns or throws. -/
abbrev Js := Except Thrown

/-- Division of `bigint`s truncates, and throws on a zero divisor. -/
def bigDiv (a b : ℤ) : Js ℤ := divI (.rangeError "Division by zero") a b

/-- `Q96`. -/
def Q96 : ℤ := 2 ^ 96

structure AmountsForLiquidityParams where
  sqrtPriceX96 : ℤ
  sqrtPriceLowerX96 : ℤ
  sqrtPriceUpperX96 : ℤ
  liquidity : ℤ

structure AmountsResult where
  amount0 : ℤ
  amount1 : ℤ
  deriving DecidableEq, Repr

/-- `getAmountsForLiquidity`. -/
def getAmountsForLiquidity (d : AmountsForLiquidityParams) : Js AmountsResult := do
  if d.liquidity = 0 then pure { amount0 := 0, amount1 := 0 }
  else if d.sqrtPriceX96 ≤ d.sqrtPriceLowerX96 then do
    let atLower ← bigDiv (d.liquidity * Q96) d.sqrtPriceLowerX96
    let atUpper ← bigDiv (d.liquidity * Q96) d.sqrtPriceUpperX96
    pure { amount0 := atLower - atUpper, amount1 := 0 }
  else if d.sqrtPriceUpperX96 ≤ d.sqrtPriceX96 then do
    let amount1 ← bigDiv (d.liquidity * (d.sqrtPriceUpperX96 - d.sqrtPriceLowerX96)) Q96
    pure { amount0 := 0, amount1 }
  else do
    let atLower ← bigDiv (d.liquidity * Q96) d.sqrtPriceLowerX96
    let atPrice ← bigDiv (d.liquidity * Q96) d.sqrtPriceX96
    let amount1 ← bigDiv (d.liquidity * (d.sqrtPriceX96 - d.sqrtPriceLowerX96)) Q96
    pure { amount0 := atLower - atPrice, amount1 }

/-! ### A position with a proper range -/

theorem Q96_eq : Q96 = (ClPool.Q96 : ℕ) := by
  simp [Q96, ClPool.Q96]

theorem bigDiv_natCast {a b : ℕ} (h : 0 < b) : bigDiv (a : ℤ) (b : ℤ) = .ok ((a / b : ℕ) : ℤ) :=
  divI_natCast h

section Range

variable {l lo hi p : ℕ}

/-- `L * Q96 / price`, the token 0 behind liquidity `l` from a price upwards. -/
theorem bigDiv_scaled (hp : 0 < p) : bigDiv (l * Q96) p = .ok ((l * ClPool.Q96 / p : ℕ) : ℤ) := by
  rw [Q96_eq, ← Nat.cast_mul, bigDiv_natCast hp]

/-- `L * (upper - lower) / Q96`, the token 1 behind liquidity `l` between two prices. -/
theorem bigDiv_distance (h : lo ≤ p) :
    bigDiv (l * ((p : ℤ) - lo)) Q96 = .ok ((l * (p - lo) / ClPool.Q96 : ℕ) : ℤ) := by
  rw [Q96_eq, ← Nat.cast_sub h, ← Nat.cast_mul, bigDiv_natCast ClPool.Q96_pos]

/-- The price up to which the client counts token 0: the current one in range, the lower bound
above the range. Below the range it is the upper bound. -/
def countedTo (lo hi p : ℕ) : ℕ := if p ≤ lo then hi else if hi ≤ p then lo else p

theorem countedTo_bounds (hle : lo ≤ hi) : lo ≤ countedTo lo hi p ∧ countedTo lo hi p ≤ hi := by
  simp only [countedTo]
  split_ifs <;> omega

/-- **The client's amounts**, for a range with a positive lower bound. -/
theorem getAmountsForLiquidity_eq (hlo : 0 < lo) (hle : lo ≤ hi) :
    getAmountsForLiquidity ⟨p, lo, hi, l⟩ = .ok
      { amount0 := (ClPool.principal0 l lo (countedTo lo hi p) : ℕ)
        amount1 := (ClPool.principal1 l lo hi p : ℕ) } := by
  have hanti : l * ClPool.Q96 / countedTo lo hi p ≤ l * ClPool.Q96 / lo :=
    Nat.div_le_div_left (countedTo_bounds hle).1 hlo
  rw [ClPool.principal0, Nat.cast_sub hanti]
  by_cases hl : l = 0
  · subst hl
    simp [getAmountsForLiquidity, ClPool.principal1, pure, Except.pure]
  have hl' : ¬ ((l : ℤ) = 0) := by omega
  rcases Nat.lt_or_ge lo p with hp | hp
  · rcases Nat.lt_or_ge p hi with hp' | hp'
    · have hclamp : ClPool.clamp p lo hi = p := by simp only [ClPool.clamp]; omega
      simp only [getAmountsForLiquidity, if_neg hl', Nat.cast_le, if_neg (not_le.mpr hp),
        if_neg (not_le.mpr hp'), countedTo, bigDiv_scaled hlo, bigDiv_scaled (hlo.trans hp),
        bigDiv_distance hp.le, ok_bind, ClPool.principal1, hclamp]
      rfl
    · have hclamp : ClPool.clamp p lo hi = hi := by simp only [ClPool.clamp]; omega
      simp only [getAmountsForLiquidity, if_neg hl', Nat.cast_le, if_neg (not_le.mpr hp),
        if_pos hp', countedTo, bigDiv_distance hle, ok_bind, ClPool.principal1, hclamp, sub_self]
      rfl
  · have hclamp : ClPool.clamp p lo hi = lo := by simp only [ClPool.clamp]; omega
    simp only [getAmountsForLiquidity, if_neg hl', Nat.cast_le, if_pos hp, countedTo,
      bigDiv_scaled hlo, bigDiv_scaled (lt_of_lt_of_le hlo hle), ok_bind, ClPool.principal1,
      hclamp, Nat.sub_self, Nat.mul_zero, Nat.zero_div]
    rfl

/-- The client's token 1 is the contract's. -/
theorem amount1_mirrors {a0 a1 : ℕ} (h : ClPool.amountsForLiquidity l lo hi p = .ok (a0, a1)) :
    ∃ r, getAmountsForLiquidity ⟨p, lo, hi, l⟩ = .ok r ∧ r.amount1 = a1 := by
  obtain ⟨hle, hlo, -, -, -, rfl⟩ := ClPool.amountsForLiquidity_eq_ok.mp h
  exact ⟨_, getAmountsForLiquidity_eq hlo hle, rfl⟩

/-- **When the client mirrors the contract.** Below the range it always does. Elsewhere it does
when the price it counts token 0 up to and the upper bound leave the same token 0 above them. -/
theorem amounts_mirror_iff {a0 a1 : ℕ} (hlo : 0 < lo) (hlt : lo < hi)
    (h : ClPool.amountsForLiquidity l lo hi p = .ok (a0, a1)) :
    getAmountsForLiquidity ⟨p, lo, hi, l⟩ = .ok { amount0 := a0, amount1 := a1 } ↔
      p ≤ lo ∨ l * ClPool.Q96 / (if p < hi then p else lo) = l * ClPool.Q96 / hi := by
  obtain ⟨-, -, -, -, rfl, rfl⟩ := ClPool.amountsForLiquidity_eq_ok.mp h
  have hcounted := countedTo_bounds (p := p) hlt.le
  have hlow : l * ClPool.Q96 / countedTo lo hi p ≤ l * ClPool.Q96 / lo :=
    Nat.div_le_div_left hcounted.1 hlo
  have hup : l * ClPool.Q96 / hi ≤ l * ClPool.Q96 / lo := Nat.div_le_div_left hlt.le hlo
  rw [getAmountsForLiquidity_eq hlo hlt.le]
  simp only [Except.ok.injEq, AmountsResult.mk.injEq, and_true, Nat.cast_inj, ClPool.principal0]
  have hsub : l * ClPool.Q96 / lo - l * ClPool.Q96 / countedTo lo hi p
        = l * ClPool.Q96 / lo - l * ClPool.Q96 / hi
      ↔ l * ClPool.Q96 / countedTo lo hi p = l * ClPool.Q96 / hi := by omega
  rw [hsub, countedTo]
  by_cases hp : p ≤ lo
  · simp [hp]
  · by_cases hp' : hi ≤ p
    · simp [hp, hp', not_lt.mpr hp']
    · simp [hp, hp', not_le.mp hp']

theorem amounts_mirror_below_range :
    getAmountsForLiquidity ⟨2 ^ 96, 2 ^ 97, 2 ^ 98, 8⟩
      = .ok { amount0 := (2 : ℕ), amount1 := (0 : ℕ) } :=
  (amounts_mirror_iff (l := 8) (p := 2 ^ 96) (by decide) (by decide) (by decide)).mpr
    (.inl (by decide))

/-- In a range from half the unit price to four times it, at the unit price, the contract charges
14 of token 0 for 8 units of liquidity, and the client says 8. -/
theorem amounts_differ_in_range :
    ∃ l lo hi p a0 a1 : ℕ, 0 < lo ∧ lo < hi ∧
      ClPool.amountsForLiquidity l lo hi p = .ok (a0, a1) ∧
      getAmountsForLiquidity ⟨p, lo, hi, l⟩ ≠ .ok { amount0 := a0, amount1 := a1 } := by
  refine ⟨8, 2 ^ 95, 2 ^ 98, 2 ^ 96, 14, 4, by decide, by decide, by decide, ?_⟩
  decide

end Range

end Swyft.Sdk
