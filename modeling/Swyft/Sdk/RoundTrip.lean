import Swyft.Sdk.PositionMath
import Swyft.Lib.Floors

/-!
# From amounts to liquidity and back

`getLiquidityForAmounts` works out the liquidity that two amounts pay for, and
`getAmountsForLiquidity` what a liquidity costs. Outside the range the cost never exceeds what was
offered. Inside it the first function values token 0 between the price and the upper bound, and the
second one between the lower bound and the price: the cost can exceed the offer when the price is in
the upper part of the range and token 1 is not what limits the liquidity.

## Main definitions

* `getLiquidityForAmounts` — the source function, on all integers
* `WithinOffer` — the cost of the liquidity for two amounts is at most the amounts
* `OfferSuffices` — a condition on the two amounts, inside the range

## Main results

* `within_offer_iff` — when the cost is within the offer
* `offerSuffices_of_low_price`, `offerSuffices_of_low_amount1` — two cases in which it always is
-/

namespace Swyft.Sdk

open Checked

/-! ### The source function -/

structure LiquidityForAmountsParams where
  sqrtPriceX96 : ℤ
  sqrtPriceLowerX96 : ℤ
  sqrtPriceUpperX96 : ℤ
  amount0 : ℤ
  amount1 : ℤ

/-- `getLiquidityForAmounts`. -/
def getLiquidityForAmounts (d : LiquidityForAmountsParams) : Js ℤ :=
  if d.sqrtPriceX96 ≤ d.sqrtPriceLowerX96 then
    bigDiv (d.amount0 * d.sqrtPriceLowerX96 * d.sqrtPriceUpperX96)
      (Q96 * (d.sqrtPriceUpperX96 - d.sqrtPriceLowerX96))
  else if d.sqrtPriceUpperX96 ≤ d.sqrtPriceX96 then
    bigDiv (d.amount1 * Q96) (d.sqrtPriceUpperX96 - d.sqrtPriceLowerX96)
  else do
    let liq0 ← bigDiv (d.amount0 * d.sqrtPriceX96 * d.sqrtPriceUpperX96)
      (Q96 * (d.sqrtPriceUpperX96 - d.sqrtPriceX96))
    let liq1 ← bigDiv (d.amount1 * Q96) (d.sqrtPriceX96 - d.sqrtPriceLowerX96)
    pure (if liq0 < liq1 then liq0 else liq1)

/-- The liquidity for the amounts costs at most the amounts. -/
def WithinOffer (price lower upper amount0 amount1 : ℤ) : Prop :=
  Yields (getLiquidityForAmounts ⟨price, lower, upper, amount0, amount1⟩) fun liquidity =>
    Yields (getAmountsForLiquidity ⟨price, lower, upper, liquidity⟩) fun r =>
      r.amount0 ≤ amount0 ∧ r.amount1 ≤ amount1

instance (price lower upper amount0 amount1 : ℤ) :
    Decidable (WithinOffer price lower upper amount0 amount1) :=
  inferInstanceAs (Decidable (Yields _ _))

/-! ### Its value for a proper range -/

section Range

variable {lo hi p a0 a1 n a : ℕ}

/-- The liquidity that token 0 pays for between two prices. -/
def liquidity0 (lo hi a0 : ℕ) : ℕ := a0 * lo * hi / (ClPool.Q96 * (hi - lo))

/-- The liquidity that token 1 pays for between two prices. -/
def liquidity1 (lo hi a1 : ℕ) : ℕ := a1 * ClPool.Q96 / (hi - lo)

theorem bigDiv_liquidity0 (hlt : lo < hi) :
    bigDiv (a0 * lo * hi) (Q96 * ((hi : ℤ) - lo)) = .ok (liquidity0 lo hi a0 : ℕ) := by
  have hpos : 0 < ClPool.Q96 * (hi - lo) := Nat.mul_pos ClPool.Q96_pos (Nat.sub_pos_of_lt hlt)
  rw [Q96_eq, ← Nat.cast_sub hlt.le]
  exact_mod_cast bigDiv_natCast hpos

theorem bigDiv_liquidity1 (hlt : lo < hi) :
    bigDiv (a1 * Q96) ((hi : ℤ) - lo) = .ok (liquidity1 lo hi a1 : ℕ) := by
  rw [Q96_eq, ← Nat.cast_sub hlt.le, ← Nat.cast_mul, bigDiv_natCast (Nat.sub_pos_of_lt hlt)]
  rfl

/-- **The liquidity for two amounts**, for a range with a positive lower bound. -/
theorem getLiquidityForAmounts_eq (hlt : lo < hi) :
    getLiquidityForAmounts ⟨p, lo, hi, a0, a1⟩ = .ok
      (if p ≤ lo then liquidity0 lo hi a0
        else if hi ≤ p then liquidity1 lo hi a1
        else min (liquidity0 p hi a0) (liquidity1 lo p a1) : ℕ) := by
  simp only [getLiquidityForAmounts, Nat.cast_le]
  split_ifs with hbelow habove
  · exact bigDiv_liquidity0 hlt
  · exact bigDiv_liquidity1 hlt
  · rw [bigDiv_liquidity0 (not_le.mp habove), ok_bind, bigDiv_liquidity1 (not_le.mp hbelow),
      ok_bind]
    refine congrArg Except.ok ?_
    rw [Nat.cast_min]
    split_ifs with hlt'
    · exact (min_eq_left hlt'.le).symm
    · exact (min_eq_right (not_lt.mp hlt')).symm

/-! ### What the liquidity costs -/

/-- Of a difference of quotients, the floors are no further apart than the whole numbers it
reaches. -/
theorem div_sub_div_le (hlo : 0 < lo) (hle : lo ≤ hi) (h : n * (hi - lo) ≤ a * lo * hi) :
    n / lo - n / hi ≤ a := by
  by_contra hgt
  have hhi : 0 < hi := hlo.trans_le hle
  have hlow : (n / hi + a + 1) * lo ≤ n := (Nat.le_div_iff_mul_le hlo).mp (by omega)
  have hhigh : n < hi * (n / hi + 1) := Nat.lt_mul_div_succ n hhi
  have hsplit : n * lo + n * (hi - lo) = n * hi := by
    rw [← Nat.mul_add, Nat.add_sub_cancel' hle]
  refine absurd (Nat.mul_le_mul_right hi hlow) (not_le.mpr ?_)
  calc n * hi = n * lo + n * (hi - lo) := hsplit.symm
    _ < hi * (n / hi + 1) * lo + a * lo * hi :=
      Nat.add_lt_add_of_lt_of_le (Nat.mul_lt_mul_of_pos_right hhigh hlo) h
    _ = (n / hi + a + 1) * lo * hi := by ring

/-- Token 0 between two prices pays for the liquidity it was turned into. -/
theorem principal0_liquidity0_le (hlo : 0 < lo) (hlt : lo < hi) :
    ClPool.principal0 (liquidity0 lo hi a0) lo hi ≤ a0 := by
  refine div_sub_div_le hlo hlt.le ?_
  calc liquidity0 lo hi a0 * ClPool.Q96 * (hi - lo)
      = liquidity0 lo hi a0 * (ClPool.Q96 * (hi - lo)) := by rw [Nat.mul_assoc]
    _ ≤ a0 * lo * hi := Nat.div_mul_le_self _ _

/-- Token 1 between two prices pays for the liquidity it was turned into, and for any smaller
one. -/
theorem distance_liquidity1_le (hn : n ≤ liquidity1 lo hi a1) :
    n * (hi - lo) / ClPool.Q96 ≤ a1 := by
  refine Nat.div_le_of_le_mul ?_
  calc n * (hi - lo) ≤ liquidity1 lo hi a1 * (hi - lo) := Nat.mul_le_mul_right _ hn
    _ ≤ a1 * ClPool.Q96 := Nat.div_mul_le_self _ _
    _ = ClPool.Q96 * a1 := Nat.mul_comm _ _

end Range

/-- Inside the range: the liquidity that both amounts pay for is worth at most the offered token 0
between the lower bound and the price. -/
def OfferSuffices (price lower upper amount0 amount1 : ℤ) : Prop :=
  let n := min (amount0 * price * upper / (Q96 * (upper - price)))
    (amount1 * Q96 / (price - lower))
  n * Q96 / lower ≤ amount0 + n * Q96 / price

section Range

variable {lo hi p a0 a1 : ℕ}

/-- The same on naturals. -/
theorem offerSuffices_iff (hlo : lo < p) (hhi : p < hi) :
    OfferSuffices p lo hi a0 a1 ↔
      ClPool.principal0 (min (liquidity0 p hi a0) (liquidity1 lo p a1)) lo p ≤ a0 := by
  have hn : min ((a0 : ℤ) * p * hi / (Q96 * (hi - p))) (a1 * Q96 / (p - lo))
      = (min (liquidity0 p hi a0) (liquidity1 lo p a1) : ℕ) := by
    rw [Nat.cast_min, liquidity0, liquidity1, Q96_eq, ← Nat.cast_sub hlo.le, ← Nat.cast_sub hhi.le]
    push_cast
    rfl
  show min _ _ * Q96 / (lo : ℤ) ≤ a0 + min _ _ * Q96 / (p : ℤ) ↔ _
  rw [hn, Q96_eq, ClPool.principal0, Nat.sub_le_iff_le_add]
  exact_mod_cast Iff.rfl

/-- In the lower part of the range, up to the harmonic mean of its bounds, the offer suffices. -/
theorem offerSuffices_of_low_price (hpos : 0 < lo) (hlo : lo < p) (hhi : p < hi)
    (hmean : p * (lo + hi) ≤ 2 * lo * hi) : OfferSuffices p lo hi a0 a1 := by
  rw [offerSuffices_iff hlo hhi]
  refine div_sub_div_le hpos hlo.le ?_
  generalize hn : min (liquidity0 p hi a0) (liquidity1 lo p a1) = n
  have hle : n * (ClPool.Q96 * (hi - p)) ≤ a0 * p * hi := by
    rw [← hn]
    exact (Nat.mul_le_mul_right _ (Nat.min_le_left _ _)).trans (Nat.div_mul_le_self _ _)
  have hshare : hi * (p - lo) ≤ lo * (hi - p) := by
    rw [Nat.mul_sub, Nat.mul_sub, Nat.sub_le_iff_le_add, ← Nat.sub_add_comm (by gcongr)]
    refine Nat.le_sub_of_add_le ?_
    linarith
  refine Nat.le_of_mul_le_mul_right (c := hi) ?_ (hpos.trans (hlo.trans hhi))
  calc n * ClPool.Q96 * (p - lo) * hi = n * ClPool.Q96 * (hi * (p - lo)) := by ring
    _ ≤ n * ClPool.Q96 * (lo * (hi - p)) := Nat.mul_le_mul_left _ hshare
    _ = lo * (n * (ClPool.Q96 * (hi - p))) := by ring
    _ ≤ lo * (a0 * p * hi) := Nat.mul_le_mul_left _ hle
    _ = a0 * lo * p * hi := by ring

/-- So it does where there is little token 1 for the token 0. -/
theorem offerSuffices_of_low_amount1 (hpos : 0 < lo) (hlo : lo < p) (hhi : p < hi)
    (hlittle : a1 * ClPool.Q96 * ClPool.Q96 ≤ a0 * lo * p) : OfferSuffices p lo hi a0 a1 := by
  rw [offerSuffices_iff hlo hhi]
  refine div_sub_div_le hpos hlo.le ?_
  have hn : min (liquidity0 p hi a0) (liquidity1 lo p a1) * (p - lo) ≤ a1 * ClPool.Q96 :=
    (Nat.mul_le_mul_right _ (Nat.min_le_right _ _)).trans (Nat.div_mul_le_self _ _)
  calc min (liquidity0 p hi a0) (liquidity1 lo p a1) * ClPool.Q96 * (p - lo)
      = min (liquidity0 p hi a0) (liquidity1 lo p a1) * (p - lo) * ClPool.Q96 := by ring
    _ ≤ a1 * ClPool.Q96 * ClPool.Q96 := Nat.mul_le_mul_right _ hn
    _ ≤ a0 * lo * p := hlittle

/-- The cost of the liquidity, for natural prices. -/
theorem withinOffer_natCast_iff (hpos : 0 < lo) (hlt : lo < hi) :
    WithinOffer p lo hi a0 a1 ↔ p ≤ lo ∨ hi ≤ p ∨ OfferSuffices p lo hi a0 a1 := by
  rw [WithinOffer, getLiquidityForAmounts_eq hlt, yields_iff]
  simp only [Except.ok.injEq, exists_eq_left', getAmountsForLiquidity_eq hpos hlt.le, yields_iff,
    Nat.cast_le]
  by_cases hbelow : p ≤ lo
  · have hclamp : ClPool.clamp p lo hi = lo := by simp only [ClPool.clamp]; omega
    refine iff_of_true ?_ (.inl hbelow)
    rw [if_pos hbelow, countedTo, if_pos hbelow, ClPool.principal1, hclamp, Nat.sub_self,
      Nat.mul_zero, Nat.zero_div]
    exact ⟨principal0_liquidity0_le hpos hlt, Nat.zero_le _⟩
  rw [if_neg hbelow, countedTo, if_neg hbelow, or_iff_right hbelow]
  by_cases habove : hi ≤ p
  · have hclamp : ClPool.clamp p lo hi = hi := by simp only [ClPool.clamp]; omega
    refine iff_of_true ?_ (.inl habove)
    rw [if_pos habove, if_pos habove, ClPool.principal0, Nat.sub_self, ClPool.principal1, hclamp]
    exact ⟨Nat.zero_le _, distance_liquidity1_le le_rfl⟩
  · have hclamp : ClPool.clamp p lo hi = p := by simp only [ClPool.clamp]; omega
    rw [if_neg habove, if_neg habove, or_iff_right habove, ClPool.principal1, hclamp,
      offerSuffices_iff (not_le.mp hbelow) (not_le.mp habove)]
    exact and_iff_left (distance_liquidity1_le (Nat.min_le_right _ _))

end Range

end Swyft.Sdk
