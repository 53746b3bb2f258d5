import Swyft.ClPool.WellFormed

/-!
# Tokens in and out of the pool

Every entry point moves an amount of each of the pool's two tokens between the pool and a caller.
The two tokens may be one contract, so a balance sees the amounts that are in its own token:
`inToken`. A payment goes through exactly when every balance covers what is asked of it.

## Main results

* `transferBoth_paid`, `transferBoth_received` — what the pool's balances lose or gain
* `transferBoth_ok_iff` — a payment goes through exactly when the balances cover it
* `transferSwap_balance` — a swap's two transfers together
-/

namespace Swyft.ClPool

open Checked

/-- What the amounts `amount0` and `amount1` come to in the token at `t`. -/
def inToken (p : Pool) (t : Address) (amount0 amount1 : ℕ) : ℕ :=
  (if p.token0 = t then amount0 else 0) + (if p.token1 = t then amount1 else 0)

/-- The pool's balances cover the amounts. -/
def Covers (w : World) (amount0 amount1 : ℕ) : Prop :=
  ∀ t, inToken w.pool t amount0 amount1 ≤ w.tokens t w.self

/-- The balances that matter are those of the pool's own tokens. -/
theorem covers_iff {w : World} {amount0 amount1 : ℕ} :
    Covers w amount0 amount1 ↔
      inToken w.pool w.pool.token0 amount0 amount1 ≤ w.tokens w.pool.token0 w.self ∧
      inToken w.pool w.pool.token1 amount0 amount1 ≤ w.tokens w.pool.token1 w.self := by
  constructor
  · exact fun h => ⟨h _, h _⟩
  · rintro ⟨h0, h1⟩ t
    by_cases ht0 : w.pool.token0 = t
    · rw [← ht0]; exact h0
    · by_cases ht1 : w.pool.token1 = t
      · rw [← ht1]; exact h1
      · simp [inToken, ht0, ht1]

instance (w : World) (amount0 amount1 : ℕ) : Decidable (Covers w amount0 amount1) :=
  decidable_of_iff _ covers_iff.symm

variable {tokens tokens' : Tokens} {token src dst : Address} {amount : ℕ}

/-! ### One transfer -/

theorem transfer_ok_iff {n : ℕ} :
    (∃ tokens', tokens.transfer token src dst n = .ok tokens') ↔ n ≤ tokens token src := by
  simp only [Tokens.transfer, bind_eq_ok, require_eq_ok, exists_const, pure_eq_ok,
    Int.toNat_natCast]
  constructor
  · rintro ⟨_, -, h, -⟩; exact h
  · intro h; exact ⟨_, by omega, h, rfl⟩

theorem transfer_balance {n : ℕ} (h : tokens.transfer token src dst n = .ok tokens')
    (hne : src ≠ dst) (t : Address) :
    tokens' t src + (if token = t then n else 0) = tokens t src ∧
      tokens' t dst = tokens t dst + if token = t then n else 0 := by
  obtain ⟨hle, hsrc⟩ := Tokens.transfer_apply h hne t src
  obtain ⟨-, hdst⟩ := Tokens.transfer_apply h hne t dst
  by_cases ht : token = t
  · subst ht
    simp [hne.symm] at hsrc hdst
    simp
    omega
  · simp [Ne.symm ht] at hsrc hdst
    simp [ht]
    omega

/-- A negative amount is refused, so a transfer that goes through moved its whole amount. -/
theorem transferPositive_eq_ok (hfit : amount < 2 ^ 128)
    (h : transferPositive tokens token src dst amount = .ok tokens') (hne : src ≠ dst)
    (t : Address) :
    tokens' t src + (if token = t then amount else 0) = tokens t src ∧
      tokens' t dst = tokens t dst + if token = t then amount else 0 := by
  simp only [transferPositive] at h
  split at h
  case isTrue hpos =>
    by_cases hlt : amount < 2 ^ 127
    · rw [asI128_of_lt hlt] at h
      exact transfer_balance h hne t
    · simp only [Tokens.transfer, bind_eq_ok, require_eq_ok, exists_const] at h
      have hneg := h.1
      rw [asI128, asI, if_neg hlt] at hneg
      omega
  case isFalse h0 =>
    obtain rfl := pure_eq_ok.mp h
    obtain rfl : amount = 0 := by omega
    simp

theorem transferPositive_ok (hfit : amount < 2 ^ 127) (hle : amount ≤ tokens token src) :
    ∃ tokens', transferPositive tokens token src dst amount = .ok tokens' := by
  simp only [transferPositive]
  split
  · rw [asI128_of_lt hfit]
    exact transfer_ok_iff.mpr hle
  · exact ⟨tokens, rfl⟩

/-! ### The two transfers of an entry point -/

section Both

variable {w : World} {amount0 amount1 : ℕ}

/-- The balances of whoever pays. -/
theorem transferBoth_paid (h0 : amount0 < 2 ^ 128) (h1 : amount1 < 2 ^ 128)
    (h : transferBoth w src dst amount0 amount1 = .ok tokens') (hne : src ≠ dst) (t : Address) :
    tokens' t src + inToken w.pool t amount0 amount1 = w.tokens t src := by
  simp only [transferBoth, bind_eq_ok] at h
  obtain ⟨mid, hmid, h⟩ := h
  have first := (transferPositive_eq_ok h0 hmid hne t).1
  have second := (transferPositive_eq_ok h1 h hne t).1
  rw [inToken]
  omega

/-- The balances of whoever is paid. -/
theorem transferBoth_received (h0 : amount0 < 2 ^ 128) (h1 : amount1 < 2 ^ 128)
    (h : transferBoth w src dst amount0 amount1 = .ok tokens') (hne : src ≠ dst) (t : Address) :
    tokens' t dst = w.tokens t dst + inToken w.pool t amount0 amount1 := by
  simp only [transferBoth, bind_eq_ok] at h
  obtain ⟨mid, hmid, h⟩ := h
  have first := (transferPositive_eq_ok h0 hmid hne t).2
  have second := (transferPositive_eq_ok h1 h hne t).2
  rw [inToken]
  omega

/-- **A payment goes through exactly when the balances cover it.** -/
theorem transferBoth_ok_iff (h0 : amount0 < 2 ^ 127) (h1 : amount1 < 2 ^ 127)
    (hne : w.self ≠ dst) :
    (∃ tokens', transferBoth w w.self dst amount0 amount1 = .ok tokens') ↔
      Covers w amount0 amount1 := by
  constructor
  · rintro ⟨tokens', h⟩ t
    have := transferBoth_paid (lt_trans h0 (by decide)) (lt_trans h1 (by decide)) h hne t
    omega
  · intro hc
    have hc0 := hc w.pool.token0
    have hc1 := hc w.pool.token1
    simp only [inToken, if_true] at hc0 hc1
    obtain ⟨mid, hmid⟩ : ∃ mid,
        transferPositive w.tokens w.pool.token0 w.self dst amount0 = .ok mid :=
      transferPositive_ok h0 (by omega)
    have hbal := (transferPositive_eq_ok (lt_trans h0 (by decide)) hmid hne w.pool.token1).1
    obtain ⟨tokens', h⟩ : ∃ tokens',
        transferPositive mid w.pool.token1 w.self dst amount1 = .ok tokens' :=
      transferPositive_ok h1 (by omega)
    exact ⟨tokens', by rw [transferBoth, hmid, ok_bind]; exact h⟩

end Both

theorem inToken_add (p : Pool) (t : Address) (a0 a1 b0 b1 : ℕ) :
    inToken p t (a0 + b0) (a1 + b1) = inToken p t a0 a1 + inToken p t b0 b1 := by
  simp only [inToken]
  split_ifs <;> omega

theorem inToken_mono {p : Pool} {t : Address} {a0 a1 b0 b1 : ℕ} (h0 : a0 ≤ b0) (h1 : a1 ≤ b1) :
    inToken p t a0 a1 ≤ inToken p t b0 b1 := by
  simp only [inToken]
  split_ifs <;> omega

/-- **The two transfers of a swap**: the pool gains the input and loses the output. -/
theorem transferSwap_balance {w : World} {sender : Address} {zeroForOne : Bool}
    {inputPaid amountOut : ℕ} (hs : sender ≠ w.self)
    (h : transferSwap w sender zeroForOne inputPaid amountOut = .ok tokens') (t : Address) :
    tokens' t w.self
        + inToken w.pool t (if zeroForOne then 0 else amountOut) (if zeroForOne then amountOut else 0)
      = w.tokens t w.self
        + inToken w.pool t (if zeroForOne then inputPaid else 0)
          (if zeroForOne then 0 else inputPaid) := by
  simp only [transferSwap, bind_eq_ok, toI128_eq_ok] at h
  obtain ⟨_, ⟨-, rfl⟩, mid, hmid, h⟩ := h
  have first := (transfer_balance hmid hs t).2
  split at h
  case isTrue hpos =>
    simp only [bind_eq_ok, toI128_eq_ok] at h
    obtain ⟨_, ⟨-, rfl⟩, h⟩ := h
    have second := (transfer_balance h hs.symm t).1
    cases zeroForOne <;> simp [inToken] at first second ⊢ <;> omega
  case isFalse h0 =>
    obtain rfl := pure_eq_ok.mp h
    obtain rfl : amountOut = 0 := by omega
    cases zeroForOne <;> simp [inToken] at first ⊢ <;> omega

/-! ### Sizes

Every amount an entry point pays is far below the range in which a `u128` reads as negative. -/

/-- A positive price is not small. -/
theorem Q96_le_of_price_pos {tick : ℤ} (h : 0 < tickToSqrtPrice tick) :
    Q96 ≤ 20000 * tickToSqrtPrice tick := by
  simp only [tickToSqrtPrice, satSub] at h ⊢
  split at h
  case isTrue h0 => rw [if_pos h0]; omega
  case isFalse h0 =>
    rw [if_neg h0]
    have hlt : (-tick).toNat * Q96 < 20000 * Q96 := by omega
    have hn : (-tick).toNat ≤ 19999 := by
      have := Nat.lt_of_mul_lt_mul_right hlt
      omega
    have hle : (-tick).toNat * Q96 ≤ 19999 * Q96 := Nat.mul_le_mul_right _ hn
    omega

theorem principal0_le {liquidity hi : ℕ} {tick : ℤ} (h : 0 < tickToSqrtPrice tick) :
    principal0 liquidity (tickToSqrtPrice tick) hi ≤ 20000 * liquidity := by
  have hq : liquidity * Q96 / tickToSqrtPrice tick ≤ 20000 * liquidity := by
    refine Nat.div_le_of_le_mul ?_
    calc liquidity * Q96 ≤ liquidity * (20000 * tickToSqrtPrice tick) :=
          Nat.mul_le_mul_left _ (Q96_le_of_price_pos h)
      _ = tickToSqrtPrice tick * (20000 * liquidity) := by ring
  exact le_trans (Nat.sub_le _ _) hq

/-- A product that fits in a word is small once divided by `Q96`. -/
theorem div_Q96_lt {x : ℕ} (h : x < 2 ^ 128) : x / Q96 < 2 ^ 32 := by
  rw [Nat.div_lt_iff_lt_mul Q96_pos]
  exact h

/-- The amounts `amounts_for_liquidity` returns are small. -/
theorem amounts_lt {liquidity price amount0 amount1 : ℕ} {tickLower tickUpper : ℤ}
    (h : amountsForLiquidity liquidity (tickToSqrtPrice tickLower) (tickToSqrtPrice tickUpper) price
      = .ok (amount0, amount1)) : amount0 < 2 ^ 47 ∧ amount1 < 2 ^ 32 := by
  obtain ⟨-, hlo, hscaled, hfit, rfl, rfl⟩ := amountsForLiquidity_eq_ok.mp h
  refine ⟨?_, div_Q96_lt hfit⟩
  have hle : principal0 liquidity (tickToSqrtPrice tickLower) (tickToSqrtPrice tickUpper) ≤ _ :=
    principal0_le hlo
  rw [Q96] at hscaled
  omega

end Swyft.ClPool
