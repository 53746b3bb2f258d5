import Swyft.Sdk.QuoteWalk
import Swyft.Lib.Sorting

/-!
# Ticks behind the price

A ladder of ticks may go on behind the price, on the side that a swap moves away from. Such a tick
is never reached, and the loop of `getSwapQuote` ends at the first one it meets, whatever comes
after it.

## Main definitions

* `NotBehind` — the ticks that are not behind the price of the pool
* `Covers` — the ticks that sort before the first tick behind the price take in the whole amount

## Main results

* `getSwapQuote_eq_iff` — two ladders with the same ticks ahead
-/

namespace Swyft.Sdk

open Checked LocalSwapQuoteParams

/-- Not behind the price of the pool. -/
def NotBehind (d : LocalSwapQuoteParams) (s : TickState) : Prop :=
  ¬ Behind d.zeroForOne d.poolState.price s.price

instance (d : LocalSwapQuoteParams) : DecidablePred (NotBehind d) := fun _ =>
  inferInstanceAs (Decidable (¬ _))

/-- Two ladders of a pool with positive prices and liquidity that have the same ticks ahead. -/
structure SameAhead (d : LocalSwapQuoteParams) (ticks ticks' : List TickState) : Prop where
  price : 0 < d.poolState.price
  liquidity : 0 < d.poolState.liquidityAmount
  prices : ∀ s ∈ ticks, 0 < s.price
  prices' : ∀ s ∈ ticks', 0 < s.price
  ahead : ticks.filter (NotBehind d) = ticks'.filter (NotBehind d)

/-- The ticks of a ladder that sort before the first one behind the price. -/
def beforeBehind (d : LocalSwapQuoteParams) (ticks : List TickState) : List ℤ :=
  ((sortTicks d.zeroForOne ticks).takeWhile (NotBehind d)).map TickState.price

/-- They take in the whole amount. -/
def Covers (d : LocalSwapQuoteParams) (ticks : List TickState) : Prop :=
  d.amountInAfterFee
    ≤ reach d.zeroForOne d.poolState.liquidityAmount d.poolState.price (beforeBehind d ticks)

instance (d : LocalSwapQuoteParams) (ticks : List TickState) : Decidable (Covers d ticks) :=
  inferInstanceAs (Decidable (_ ≤ _))

/-- The message where there is input left over. -/
def exceeds : Thrown := invalidQuote "amount exceeds available liquidity"

section Ladder

variable {d : LocalSwapQuoteParams} {ticks ticks' : List TickState}

instance (zeroForOne : Bool) : IsTrans TickState (InOrder zeroForOne) where
  trans a b c hab hbc := by
    cases zeroForOne with
    | true => exact le_trans (show c.tick ≤ b.tick from hbc) hab
    | false => exact le_trans (show a.tick ≤ b.tick from hab) hbc

instance (zeroForOne : Bool) : Std.Total (InOrder zeroForOne) where
  total a b := by
    cases zeroForOne with
    | true => exact le_total b.tick a.tick
    | false => exact le_total a.tick b.tick

/-- The sorted ticks ahead depend on the ticks ahead only. -/
theorem filter_sortTicks {p : TickState → Bool} (h : ticks.filter p = ticks'.filter p)
    (zeroForOne : Bool) :
    (sortTicks zeroForOne ticks).filter p = (sortTicks zeroForOne ticks').filter p := by
  rw [sortTicks, sortTicks, Sorting.filter_insertionSort, h, ← Sorting.filter_insertionSort]

/-- The start of the walk. -/
def start (d : LocalSwapQuoteParams) : QuoteState := ⟨d.amountInAfterFee, 0, d.poolState.price⟩

/-- The walk ends before the first tick behind. -/
theorem final_withTicks (d : LocalSwapQuoteParams) (ticks : List TickState) :
    (d.withTicks (some ticks)).final
      = walk d.zeroForOne d.poolState.liquidityAmount (beforeBehind d ticks) (start d) := by
  have hself : ¬ Behind d.zeroForOne d.poolState.price (start d).sqrtPrice := by
    cases hz : d.zeroForOne <;> simp [Behind, start]
  show walk d.zeroForOne d.poolState.liquidityAmount
    ((sortTicks d.zeroForOne ticks).map TickState.price) (start d) = _
  rw [walk_takeWhile hself, beforeBehind, List.takeWhile_map]
  rfl

theorem prices_beforeBehind (h : ∀ s ∈ ticks, 0 < s.price) : ∀ t ∈ beforeBehind d ticks, 0 < t := by
  intro t ht
  obtain ⟨s, hs, rfl⟩ := List.mem_map.mp ht
  exact h s (mem_sortTicks.mp ((List.takeWhile_subset _) hs))

/-- Nothing is left over exactly where the ticks cover the amount. -/
theorem final_done_iff (hprice : 0 < d.poolState.price)
    (hliquidity : 0 < d.poolState.liquidityAmount) (h : ∀ s ∈ ticks, 0 < s.price) :
    (d.withTicks (some ticks)).final.remainingIn ≤ 0 ↔ Covers d ticks := by
  have hstart : 0 < (start d).sqrtPrice := hprice
  have hleft : 0 < (walk d.zeroForOne _ (beforeBehind d ticks) (start d)).remainingIn ↔ _ :=
    walk_remaining_pos_iff hliquidity.le hstart (prices_beforeBehind h)
  rw [final_withTicks, ← not_lt, hleft, not_lt]
  rfl

/-- Where both ladders cover the amount, the walks end alike. -/
theorem final_eq_of_covers (h : SameAhead d ticks ticks') (hcovers : Covers d ticks)
    (hcovers' : Covers d ticks') :
    (d.withTicks (some ticks)).final = (d.withTicks (some ticks')).final := by
  have hdone := (final_done_iff h.price h.liquidity h.prices).mpr hcovers
  have hdone' := (final_done_iff h.price h.liquidity h.prices').mpr hcovers'
  obtain ⟨rest, hrest⟩ :=
    Sorting.takeWhile_prefix_filter (NotBehind d) (sortTicks d.zeroForOne ticks)
  obtain ⟨rest', hrest'⟩ :=
    Sorting.takeWhile_prefix_filter (NotBehind d) (sortTicks d.zeroForOne ticks')
  have hall : beforeBehind d ticks ++ rest.map TickState.price
      = beforeBehind d ticks' ++ rest'.map TickState.price := by
    rw [beforeBehind, beforeBehind, ← List.map_append, ← List.map_append, hrest, hrest',
      filter_sortTicks h.ahead]
  rw [final_withTicks] at hdone hdone' ⊢
  rw [final_withTicks, ← walk_append_of_done (rest.map TickState.price) hdone, hall,
    walk_append_of_done (rest'.map TickState.price) hdone']

/-- An accepted request gives what the walk ends with. -/
theorem getSwapQuote_withTicks (lessSlippage : ℚ → ℚ) (haccepted : d.Accepted)
    (hprice : 0 < d.poolState.price) (hliquidity : 0 < d.poolState.liquidityAmount)
    (h : ∀ s ∈ ticks, 0 < s.price) :
    getSwapQuote lessSlippage (d.withTicks (some ticks))
      = finishQuote lessSlippage d (d.withTicks (some ticks)).final :=
  getSwapQuote_of_passable lessSlippage
    ⟨haccepted.slippage, haccepted.feeTier, haccepted.amountIn, haccepted.token⟩
    (bigInt_of_getD_ne hprice.ne') hliquidity
    (passable_of_pos hprice fun s hs => h s (mem_sortTicks.mp hs))

theorem finishQuote_of_left_over {lessSlippage : ℚ → ℚ} {final : QuoteState}
    (h : ¬ final.remainingIn ≤ 0) : finishQuote lessSlippage d final = .error exceeds := by
  rw [finishQuote_eq, if_neg h]
  rfl

/-- What is left over has a message of its own. -/
theorem finishQuote_ne_exceeds {lessSlippage : ℚ → ℚ} {final : QuoteState}
    (h : final.remainingIn ≤ 0) : finishQuote lessSlippage d final ≠ .error exceeds := by
  rw [finishQuote_eq, if_pos h]
  split_ifs <;> simp [exceeds, invalidQuote]

end Ladder

/-- **Two ladders with the same ticks ahead give the same result** exactly where the request is
refused before they are looked at, or the ticks that sort before the first one behind the price
take in the whole amount in both of them, or in neither. -/
theorem getSwapQuote_eq_iff (lessSlippage : ℚ → ℚ) (d : LocalSwapQuoteParams)
    (ticks ticks' : List TickState) (h : SameAhead d ticks ticks') :
    getSwapQuote lessSlippage (d.withTicks (some ticks))
        = getSwapQuote lessSlippage (d.withTicks (some ticks'))
      ↔ ¬ d.Accepted ∨ (Covers d ticks ↔ Covers d ticks') := by
  by_cases haccepted : d.Accepted
  · rw [getSwapQuote_withTicks lessSlippage haccepted h.price h.liquidity h.prices,
      getSwapQuote_withTicks lessSlippage haccepted h.price h.liquidity h.prices']
    have hdone := final_done_iff h.price h.liquidity h.prices
    have hdone' := final_done_iff h.price h.liquidity h.prices'
    by_cases hcovers : Covers d ticks
    · by_cases hcovers' : Covers d ticks'
      · rw [final_eq_of_covers h hcovers hcovers']
        exact iff_of_true rfl (.inr (iff_of_true hcovers hcovers'))
      · rw [finishQuote_of_left_over fun h => hcovers' (hdone'.mp h)]
        refine iff_of_false (finishQuote_ne_exceeds (hdone.mpr hcovers)) ?_
        rintro (hrefused | hboth)
        · exact hrefused haccepted
        · exact hcovers' (hboth.mp hcovers)
    · rw [finishQuote_of_left_over fun h => hcovers (hdone.mp h)]
      by_cases hcovers' : Covers d ticks'
      · refine iff_of_false (finishQuote_ne_exceeds (hdone'.mpr hcovers')).symm ?_
        rintro (hrefused | hboth)
        · exact hrefused haccepted
        · exact hcovers (hboth.mpr hcovers')
      · rw [finishQuote_of_left_over fun h => hcovers' (hdone'.mp h)]
        exact iff_of_true rfl (.inr (iff_of_false hcovers hcovers'))
  · obtain ⟨message, hmessage⟩ := getSwapQuote_of_not_accepted lessSlippage haccepted
    rw [hmessage, hmessage]
    exact iff_of_true rfl (.inl haccepted)

/-! ### A ladder on both sides of the price -/

/-- A pool at the price one, and a swap of its token 0. -/
def atOne : LocalSwapQuoteParams where
  poolState :=
    { token0 := "A"
      token1 := "B"
      sqrtPriceX96 := "79228162514264337593543950336"
      liquidity := "1000000"
      feeTier := some 3000
      ticks := none }
  tokenIn := "A"
  amountIn := .text "1000"
  slippage := some 50

/-- The tick below, at half the price, and the tick above, at twice the price. -/
def below : TickState := ⟨-13863, "39614081257132168796771975168"⟩
def above : TickState := ⟨13863, "158456325028528675187087900672"⟩

theorem getSwapQuote_atOne_eq_iff :
    getSwapQuote (fun x => 10000 - x) (atOne.withTicks (some [below, above]))
        = getSwapQuote (fun x => 10000 - x) (atOne.withTicks (some [below, above, above]))
      ↔ ¬ atOne.Accepted ∨ (Covers atOne [below, above] ↔ Covers atOne [below, above, above]) :=
  getSwapQuote_eq_iff _ atOne [below, above] [below, above, above]
    ⟨by decide, by decide, by decide, by decide, by decide⟩

/-- **The tick above is behind the price of a swap downwards**, and with it there is no quote. -/
theorem tick_behind_ends_quote :
    SameAhead atOne [below] [below, above] ∧
      getSwapQuote (fun x => 10000 - x) (atOne.withTicks (some [below]))
        = .ok ⟨"1994", "3", "1984", "79228162514264337593543950336"⟩ ∧
      getSwapQuote (fun x => 10000 - x) (atOne.withTicks (some [below, above])) = .error exceeds :=
  ⟨⟨by decide, by decide, by decide, by decide, by decide⟩,
    by decide +kernel, by decide⟩

end Swyft.Sdk
