import Swyft.PoolContract.Books

/-!
# What a swap pays against its own curve

The pool contract moves the price along a curve and pays what the helpers `get_amount_1_out` and
`get_amount_0_out` say for the two prices. Selling token 0, that is what `get_amount_1` attributes
to the active liquidity between them. Selling token 1, the helper takes the prices as if they had
fallen, and pays nothing for a rise.

## Main definitions

* `risenPrice` — where selling token 1 takes the price
* `PaysCurve` — the output is the curve's

## Main results

* `getAmount1Out_eq` — selling token 0 pays the curve
* `getAmount0Out_eq_iff` — when selling token 1 does
* `swap_pays_curve_iff` — when a swap does
-/

namespace Swyft.PoolContract

open Checked
open ClPool (Q96)

variable {liquidity p q : ℕ}

/-! ### The two helpers -/

/-- Selling token 0 pays what the liquidity is worth between the two prices. -/
theorem getAmount1Out_eq {out : ℕ} (h : getAmount1Out liquidity q p = .ok out) :
    out = getAmount1 liquidity q p p := by
  rw [getAmount1Out] at h
  rw [getAmount1]
  split at h
  case isTrue hle =>
    rw [if_pos hle]
    exact (pure_eq_ok.mp h).symm
  case isFalse hlt =>
    simp only [bind_eq_ok, mulU128_eq_ok, pure_eq_ok] at h
    obtain ⟨_, ⟨hfit, rfl⟩, rfl⟩ := h
    rw [if_neg hlt]
    show _ = satMul 128 liquidity (min p p - q) / Q96
    rw [min_self, satMul_of_lt hfit]

/-- What the liquidity could be exchanged for at a price, in token 0. -/
def worth0 (liquidity price : ℕ) : ℕ := satMul 128 liquidity Q96 / price

theorem worth0_anti (liquidity : ℕ) (hpos : 0 < p) (hle : p ≤ q) :
    worth0 liquidity q ≤ worth0 liquidity p :=
  Nat.div_le_div_left hle hpos

/-- Selling token 1 pays the curve only where there is nothing to pay. -/
theorem getAmount0Out_eq_iff {out : ℕ} (h : getAmount0Out liquidity p q = .ok out) :
    out = getAmount0 liquidity p q p ↔ p = 0 ∨ q = 0 ∨ worth0 liquidity p = worth0 liquidity q := by
  rw [getAmount0Out] at h
  rw [getAmount0]
  by_cases hp : p = 0
  · rw [if_pos (.inr (.inl hp))] at h
    rw [if_pos (.inr (.inl hp)), ← pure_eq_ok.mp h]
    simp [hp]
  by_cases hq : q = 0
  · rw [if_pos (.inl hq)] at h
    rw [if_pos (.inr (.inr hq)), ← pure_eq_ok.mp h]
    simp [hq]
  have hcond : (p = 0 ∨ q = 0 ∨ worth0 liquidity p = worth0 liquidity q) ↔
      worth0 liquidity p = worth0 liquidity q := by simp [hp, hq]
  rw [hcond]
  rcases lt_or_ge p q with hrise | hfall
  · -- the price rose, and the helper sees no fall
    have hanti := worth0_anti liquidity (Nat.pos_of_ne_zero hp) hrise.le
    rw [if_pos (.inr (.inr hrise.le)), pure_eq_ok] at h
    rw [if_neg (by omega), ← h]
    show 0 = satMul 128 liquidity Q96 / max p p - worth0 liquidity q ↔ _
    rw [max_self]
    show 0 = worth0 liquidity p - worth0 liquidity q ↔ _
    omega
  · -- the limit took the price down, where the curve has no token 0 left to give
    have hanti := worth0_anti liquidity (Nat.pos_of_ne_zero hq) hfall
    rw [if_pos (.inl hfall)]
    rcases eq_or_lt_of_le hfall with rfl | hlt
    · rw [if_pos (.inr (.inr le_rfl)), pure_eq_ok] at h
      simp [← h]
    · rw [if_neg (by omega)] at h
      simp only [bind_eq_ok, mulU128_eq_ok, subU128_eq_ok] at h
      obtain ⟨_, ⟨hfit, rfl⟩, -, hout⟩ := h
      rw [← satMul_of_lt hfit] at hout
      have hout : worth0 liquidity q - worth0 liquidity p = out := hout
      omega

/-! ### The swap -/

/-- Where selling token 1 takes the price: up the curve by what is left after the fee, and no
further than the limit. -/
def risenPrice (state : PoolState) (amountIn limit : ℕ) : ℕ :=
  min (state.sqrtPriceX96 + satSub amountIn (feeAmount amountIn) * Q96 / state.liquidity) limit

/-- The output is what the liquidity is worth between the old and the new price: `get_amount_1` over
`[q, p]` for token 0, `get_amount_0` over `[p, q]` for token 1. -/
def PaysCurve (state : PoolState) (tokenIn : Address) (newPrice amountOut : ℕ) : Prop :=
  if zeroForOne state tokenIn then
    amountOut = getAmount1 state.liquidity newPrice state.sqrtPriceX96 state.sqrtPriceX96
  else amountOut = getAmount0 state.liquidity state.sqrtPriceX96 newPrice state.sqrtPriceX96

variable {w w' : World} {tokenIn tokenOut : Address} {amountIn limit amount amountOut : ℕ}
  {exactInput : Bool}

theorem swapPrice_up {state : PoolState} {price : ℕ}
    (h : swapPrice state false amountIn limit = .ok price) :
    price = risenPrice state amountIn limit := by
  simp only [swapPrice, bind_eq_ok, pure_eq_ok, Bool.false_eq_true, if_false] at h
  obtain ⟨raw, hraw, rfl⟩ := h
  rw [risenPrice]
  congr 1
  rw [nextSqrtPriceFromInput] at hraw
  split at hraw
  case isTrue hzero => rw [← pure_eq_ok.mp hraw, hzero, Nat.div_zero, Nat.add_zero]
  case isFalse =>
    simp only [Bool.false_eq_true, if_false, bind_eq_ok, mulU128_eq_ok, divU128_eq_ok,
      addU128_eq_ok] at hraw
    obtain ⟨_, ⟨-, rfl⟩, _, ⟨-, rfl⟩, -, rfl⟩ := hraw
    rfl

/-- The prices and the output of a successful swap. -/
theorem swap_output
    (h : swap w tokenIn tokenOut amountIn exactInput limit = .ok (w', amount, amountOut)) :
    swapPrice w.pool.state (zeroForOne w.pool.state tokenIn) amountIn limit
        = .ok w'.pool.state.sqrtPriceX96 ∧
      swapOutput w.pool.state (zeroForOne w.pool.state tokenIn) w'.pool.state.sqrtPriceX96
        = .ok amountOut := by
  simp only [swap, loadState, bind_eq_ok, require_eq_ok, exists_const, pure_eq_ok,
    Prod.mk.injEq] at h
  obtain ⟨_, ⟨-, rfl⟩, price, hprice, out, hout, oracle, -, rfl, -, rfl⟩ := h
  exact ⟨hprice, hout⟩

/-- **When a swap pays its own curve.** Selling token 0 it always does. Selling token 1 it does only
where the curve owes nothing: the liquidity is worth the same at the price before and at the price
the input leads to. -/
theorem swap_pays_curve_iff
    (h : swap w tokenIn tokenOut amountIn exactInput limit = .ok (w', amount, amountOut)) :
    PaysCurve w.pool.state tokenIn w'.pool.state.sqrtPriceX96 amountOut ↔
      (tokenIn = w.pool.state.token0 ∨ w.pool.state.sqrtPriceX96 = 0 ∨
        risenPrice w.pool.state amountIn limit = 0 ∨
        worth0 w.pool.state.liquidity w.pool.state.sqrtPriceX96
          = worth0 w.pool.state.liquidity (risenPrice w.pool.state amountIn limit)) := by
  obtain ⟨hprice, hout⟩ := swap_output h
  rw [PaysCurve]
  by_cases hdown : tokenIn = w.pool.state.token0
  · have hzfo : zeroForOne w.pool.state tokenIn = true := decide_eq_true hdown
    rw [hzfo, swapOutput, if_pos rfl] at hout
    rw [hzfo, if_pos rfl]
    exact iff_of_true (getAmount1Out_eq hout) (.inl hdown)
  · have hzfo : zeroForOne w.pool.state tokenIn = false := decide_eq_false hdown
    rw [hzfo] at hprice
    rw [hzfo, swapOutput, if_neg Bool.false_ne_true] at hout
    rw [hzfo, if_neg Bool.false_ne_true, ← swapPrice_up hprice, getAmount0Out_eq_iff hout]
    simp only [hdown, false_or]

/-- A million of token 1, sold into a million of liquidity, almost doubles the price, and nothing is
paid for it. -/
theorem swap_up_pays_nothing :
    ∃ g es w, Genesis g ∧ Run g es w ∧
      Yields (swap w ⟨2⟩ ⟨1⟩ 1000000 true (2 ^ 97)) fun x =>
        w.pool.state.sqrtPriceX96 < x.1.pool.state.sqrtPriceX96 ∧ x.2.2 = 0 ∧
          getAmount0 w.pool.state.liquidity w.pool.state.sqrtPriceX96
            x.1.pool.state.sqrtPriceX96 w.pool.state.sqrtPriceX96 = 499750 :=
  exists_run 3000 [.mint ⟨7⟩ 1 (-60) 60 1000000]
    (fun w _ => Yields (swap w ⟨2⟩ ⟨1⟩ 1000000 true (2 ^ 97)) fun x =>
      w.pool.state.sqrtPriceX96 < x.1.pool.state.sqrtPriceX96 ∧ x.2.2 = 0 ∧
        getAmount0 w.pool.state.liquidity w.pool.state.sqrtPriceX96
          x.1.pool.state.sqrtPriceX96 w.pool.state.sqrtPriceX96 = 499750)
    (by decide)

/-- Sold the other way, a thousand pays the curve. -/
theorem swap_down_pays_curve :
    ∃ w w' amount amountOut,
      swap w ⟨1⟩ ⟨2⟩ 1000 true 0 = .ok (w', amount, amountOut) ∧ 0 < amountOut ∧
        PaysCurve w.pool.state ⟨1⟩ w'.pool.state.sqrtPriceX96 amountOut := by
  obtain ⟨-, -, w, -, -, htoken, hrun⟩ := exists_run 3000 [.mint ⟨7⟩ 1 (-60) 60 1000000]
    (fun w _ => w.pool.state.token0 = ⟨1⟩ ∧
      Yields (swap w ⟨1⟩ ⟨2⟩ 1000 true 0) fun x => 0 < x.2.2)
    (by decide)
  obtain ⟨⟨w', amount, amountOut⟩, hswap, hpos⟩ := yields_iff.mp hrun
  exact ⟨w, w', amount, amountOut, hswap, hpos,
    (swap_pays_curve_iff hswap).mpr (.inl htoken.symm)⟩

end Swyft.PoolContract
