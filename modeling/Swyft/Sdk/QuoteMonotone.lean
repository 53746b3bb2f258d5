import Swyft.Lib.Doubles
import Swyft.Sdk.QuoteLadder

/-!
# Quotes for a larger amount

A larger amount never gets a smaller quote. On each segment the larger input goes at least as far:
where the smaller one ends with a share of the segment, the other has a larger share of it or the
whole.

## Main definitions

* `keptBps` — `10_000 - params.slippage`, on doubles
* `NumeralLE` — the order of the texts of a quote, as numbers

## Main results

* `walk_totalOut_mono` — the walk of a larger input gives out no less
* `quote_monotone` — the quote of a larger amount is no smaller
-/

namespace Swyft.Sdk

open Checked LocalSwapQuoteParams

/-- `10_000 - params.slippage`, on doubles. -/
def keptBps (slippage : ℚ) : ℚ := Doubles.round (10000 - slippage)

/-- Whole basis points are subtracted exactly. -/
theorem keptBps_intCast {n : ℤ} (hpos : 0 ≤ n) (hle : n ≤ 10000) :
    keptBps n = ((10000 - n : ℤ) : ℚ) := by
  have hsmall : |10000 - n| < 2 ^ 53 := by
    rw [abs_of_nonneg (sub_nonneg.mpr hle)]
    omega
  rw [keptBps, ← Doubles.round_intCast hsmall]
  push_cast
  rfl

/-- The order of the texts of a quote, as numbers. -/
def NumeralLE (s t : String) : Prop := ∃ x y : ℤ, s = toString x ∧ t = toString y ∧ x ≤ y

/-- The same request for another amount. -/
def LocalSwapQuoteParams.withAmount (d : LocalSwapQuoteParams) (a : Amount) :
    LocalSwapQuoteParams := { d with amountIn := a }

section Walk

variable {zeroForOne : Bool} {liquidity : ℤ} {targets : List ℤ} {st st' : QuoteState}

/-- A larger input gets a larger share of a segment. -/
theorem share_mono {given taken r r' : ℤ} (hgiven : 0 ≤ given) (htaken : 0 < taken) (hr : 0 ≤ r)
    (h : r ≤ r') : (given * r).tdiv taken ≤ (given * r').tdiv taken := by
  rw [Int.tdiv_eq_ediv_of_nonneg (mul_nonneg hgiven hr),
    Int.tdiv_eq_ediv_of_nonneg (mul_nonneg hgiven (hr.trans h))]
  exact Int.ediv_le_ediv htaken (mul_le_mul_of_nonneg_left h hgiven)

/-- A share of a segment is no more than the whole. -/
theorem share_le {given taken r : ℤ} (hgiven : 0 ≤ given) (hr : 0 ≤ r) (h : r < taken) :
    (given * r).tdiv taken ≤ given := by
  have hwhole : (given * taken).tdiv taken = given := Int.mul_tdiv_cancel _ (by omega)
  calc (given * r).tdiv taken ≤ (given * taken).tdiv taken :=
        share_mono hgiven (by omega) hr h.le
    _ = given := hwhole

theorem share_nonneg {given taken r : ℤ} (hgiven : 0 ≤ given) (hr : 0 ≤ r) (h : r < taken) :
    0 ≤ (given * r).tdiv taken :=
  Int.tdiv_nonneg (mul_nonneg hgiven hr) (by omega)

/-- A walk from a positive price takes nothing back. -/
theorem totalOut_le_walk (hl : 0 ≤ liquidity) (hc : 0 < st.sqrtPrice) (ht : ∀ t ∈ targets, 0 < t) :
    st.totalOut ≤ (walk zeroForOne liquidity targets st).totalOut := by
  induction targets generalizing st with
  | nil => exact le_rfl
  | cons target targets ih =>
    have htarget : 0 < target := ht target List.mem_cons_self
    have hnext : 0 < stepTarget st.sqrtPrice target zeroForOne := stepTarget_pos hc htarget
    have hgiven : 0 ≤ segmentGiven zeroForOne liquidity st.sqrtPrice
        (stepTarget st.sqrtPrice target zeroForOne) := segmentGiven_nonneg hl hc htarget
    rw [walk]
    split_ifs with hdone hshort hreached
    · exact le_rfl
    · exact le_add_of_nonneg_right (share_nonneg hgiven (not_le.mp hdone).le hshort)
    · calc st.totalOut ≤ st.totalOut + _ := le_add_of_nonneg_right hgiven
        _ ≤ _ := ih hnext fun t h => ht t (List.mem_cons_of_mem _ h)
    · exact le_add_of_nonneg_right hgiven

/-- **The walk of a larger input gives out no less.** -/
theorem walk_totalOut_mono (hl : 0 ≤ liquidity) (hc : 0 < st.sqrtPrice)
    (hsame : st'.sqrtPrice = st.sqrtPrice) (hr : st.remainingIn ≤ st'.remainingIn)
    (hout : st.totalOut ≤ st'.totalOut) (ht : ∀ t ∈ targets, 0 < t) :
    (walk zeroForOne liquidity targets st).totalOut
      ≤ (walk zeroForOne liquidity targets st').totalOut := by
  induction targets generalizing st st' with
  | nil => exact hout
  | cons target targets ih =>
    have htarget : 0 < target := ht target List.mem_cons_self
    have hrest : ∀ t ∈ targets, 0 < t := fun t h => ht t (List.mem_cons_of_mem _ h)
    have hnext : 0 < stepTarget st.sqrtPrice target zeroForOne := stepTarget_pos hc htarget
    have hgiven : 0 ≤ segmentGiven zeroForOne liquidity st.sqrtPrice
        (stepTarget st.sqrtPrice target zeroForOne) := segmentGiven_nonneg hl hc htarget
    by_cases hdone : st.remainingIn ≤ 0
    · -- the smaller input is used up, and the other walk only adds to its output
      rw [walk_of_done hdone]
      exact hout.trans (totalOut_le_walk hl (hsame ▸ hc) ht)
    · have hpos := not_le.mp hdone
      have hdone' : ¬ st'.remainingIn ≤ 0 := by omega
      rw [walk, walk, hsame, if_neg hdone, if_neg hdone']
      by_cases hshort : st.remainingIn < segmentTaken zeroForOne liquidity st.sqrtPrice
          (stepTarget st.sqrtPrice target zeroForOne)
      · rw [if_pos hshort]
        by_cases hshort' : st'.remainingIn < segmentTaken zeroForOne liquidity st.sqrtPrice
            (stepTarget st.sqrtPrice target zeroForOne)
        · -- both end in the segment
          rw [if_pos hshort']
          exact add_le_add hout (share_mono hgiven (by omega) hpos.le hr)
        · -- the larger input has the whole segment
          rw [if_neg hshort']
          have hshare := add_le_add hout (share_le hgiven hpos.le hshort)
          split_ifs with hreached
          · exact hshare.trans (totalOut_le_walk hl hnext hrest)
          · exact hshare
      · have hshort' : ¬ st'.remainingIn < segmentTaken zeroForOne liquidity st.sqrtPrice
            (stepTarget st.sqrtPrice target zeroForOne) := by omega
        rw [if_neg hshort, if_neg hshort']
        by_cases hreached : stepTarget st.sqrtPrice target zeroForOne = target
        · rw [if_pos hreached, if_pos hreached]
          exact ih hnext rfl (sub_le_sub_right hr _) (add_le_add_left hout _) hrest
        · rw [if_neg hreached, if_neg hreached]
          exact add_le_add_left hout _

/-- A walk from a price that is not positive gives out something only if it takes the whole first
segment, to a price that is. -/
theorem exists_first_of_totalOut_pos (hl : 0 ≤ liquidity) {current remaining : ℤ}
    (hc : current ≤ 0) (ht : ∀ t ∈ targets, 0 < t)
    (hout : 0 < (walk zeroForOne liquidity targets ⟨remaining, 0, current⟩).totalOut) :
    ∃ target rest, targets = target :: rest ∧
      ¬ remaining ≤ 0 ∧ ¬ remaining < segmentTaken zeroForOne liquidity current target ∧
      stepTarget current target zeroForOne = target := by
  cases targets with
  | nil => exact absurd hout (lt_irrefl 0)
  | cons target rest =>
    have htarget : 0 < target := ht target List.mem_cons_self
    refine ⟨target, rest, rfl, ?_⟩
    have hdone : ¬ remaining ≤ 0 := fun hdone => by
      have hnone : walk zeroForOne liquidity (target :: rest) ⟨remaining, 0, current⟩ = _ :=
        walk_of_done hdone _
      rw [hnone] at hout
      exact lt_irrefl 0 hout
    rw [walk] at hout
    cases zeroForOne with
    | true =>
      -- downwards the price does not move
      have hstep : stepTarget current target true = current := by
        rw [stepTarget, if_pos rfl, if_neg (by omega)]
      have hshort : ¬ remaining < 0 := by omega
      have hreached : current ≠ target := by omega
      rw [hstep, segmentTaken_self, segmentGiven_self, if_neg hdone, if_neg hshort,
        if_neg hreached] at hout
      exact absurd hout (lt_irrefl 0)
    | false =>
      have hstep : stepTarget current target false = target := by
        rw [stepTarget, if_neg Bool.false_ne_true, if_pos (by omega)]
      refine ⟨hdone, ?_, hstep⟩
      intro hshort
      rw [hstep, if_neg hdone, if_pos hshort] at hout
      -- a share of an output that is not positive
      have hgiven : segmentGiven false liquidity current target ≤ 0 :=
        Int.tdiv_nonpos_of_nonneg_of_nonpos (mul_nonneg hl (by omega)) hc
      have hproduct := mul_nonpos_of_nonpos_of_nonneg hgiven (not_le.mp hdone).le
      have hshare := Int.tdiv_nonneg (neg_nonneg.mpr hproduct)
        ((not_le.mp hdone).le.trans hshort.le)
      rw [Int.neg_tdiv] at hshare
      simp only [zero_add] at hout
      omega

/-- Among the walks that give out something, that of a larger input gives out no less, from any
price. -/
theorem final_totalOut_mono (hl : 0 ≤ liquidity) {current remaining remaining' : ℤ}
    (hr : remaining ≤ remaining') (ht : ∀ t ∈ targets, 0 < t)
    (hout : 0 < (walk zeroForOne liquidity targets ⟨remaining, 0, current⟩).totalOut) :
    (walk zeroForOne liquidity targets ⟨remaining, 0, current⟩).totalOut
      ≤ (walk zeroForOne liquidity targets ⟨remaining', 0, current⟩).totalOut := by
  by_cases hc : 0 < current
  · exact walk_totalOut_mono hl hc rfl hr le_rfl ht
  · obtain ⟨target, rest, rfl, hdone, hshort, hstep⟩ :=
      exists_first_of_totalOut_pos hl (not_lt.mp hc) ht hout
    have hdone' : ¬ remaining' ≤ 0 := by omega
    have hshort' : ¬ remaining' < segmentTaken zeroForOne liquidity current target := by omega
    rw [walk, walk, hstep, if_neg hdone, if_neg hshort, if_pos rfl, if_neg hdone', if_neg hshort',
      if_pos rfl]
    exact walk_totalOut_mono hl (ht target List.mem_cons_self) rfl (sub_le_sub_right hr _) le_rfl
      fun t h => ht t (List.mem_cons_of_mem _ h)

end Walk

theorem amountInAfterFee_mono {a b f : ℤ} (ha : 0 ≤ a) (hab : a ≤ b) (hf : 0 ≤ f)
    (hle : f ≤ 1000000) : a - (a * f).tdiv 1000000 ≤ b - (b * f).tdiv 1000000 := by
  rw [Int.tdiv_eq_ediv_of_nonneg (mul_nonneg ha hf),
    Int.tdiv_eq_ediv_of_nonneg (mul_nonneg (ha.trans hab) hf)]
  have hfee : b * f ≤ a * f + (b - a) * 1000000 := by
    have := mul_le_mul_of_nonneg_left hle (sub_nonneg.mpr hab)
    linarith only [this]
  calc a - a * f / 1000000 = b - (a * f + (b - a) * 1000000) / 1000000 := by
        rw [Int.add_mul_ediv_right _ _ (by norm_num)]
        ring
    _ ≤ b - b * f / 1000000 := by
        have := Int.ediv_le_ediv (by norm_num : (0 : ℤ) < 1000000) hfee
        omega

/-- A share of the slippage kept of a larger output is no smaller. -/
theorem minimumReceived_mono {x y : ℤ} {slippage : ℚ} (hx : 0 ≤ x) (hxy : x ≤ y)
    (hslippage : slippage ≤ 10000) :
    (x * (keptBps slippage).num).tdiv 10000 ≤ (y * (keptBps slippage).num).tdiv 10000 := by
  have hkept : 0 ≤ (keptBps slippage).num :=
    Rat.num_nonneg.mpr (Doubles.round_nonneg (sub_nonneg.mpr hslippage))
  rw [Int.tdiv_eq_ediv_of_nonneg (mul_nonneg hx hkept),
    Int.tdiv_eq_ediv_of_nonneg (mul_nonneg (hx.trans hxy) hkept)]
  exact Int.ediv_le_ediv (by norm_num) (mul_le_mul_of_nonneg_right hxy hkept)

/-- **The quote of a larger amount is no smaller**, in the output and in the minimum received. -/
theorem quote_monotone (d : LocalSwapQuoteParams) (a b : Amount)
    (hab : toBigIntAmount a ≤ toBigIntAmount b)
    (hticks : ∀ s ∈ d.poolState.ticks.getD [], 0 < s.price)
    (hfee : ∀ x ∈ d.poolState.feeTier, x ≤ 1000000) (quote quote' : LocalSwapQuote)
    (hquote : getSwapQuote keptBps (d.withAmount a) = .ok quote)
    (hquote' : getSwapQuote keptBps (d.withAmount b) = .ok quote') :
    NumeralLE quote.amountOut quote'.amountOut ∧
      NumeralLE quote.minimumReceived quote'.minimumReceived := by
  obtain ⟨haccepted, hl, hfinish⟩ := getSwapQuote_eq_ok hquote
  obtain ⟨-, -, hfinish'⟩ := getSwapQuote_eq_ok hquote'
  obtain ⟨-, hout, -, rfl⟩ := finishQuote_eq_ok.mp hfinish
  obtain ⟨-, -, -, rfl⟩ := finishQuote_eq_ok.mp hfinish'
  -- the larger amount is the larger one after the fee as well
  obtain ⟨f, hf, hden, hpos⟩ := haccepted.feeTier
  have hnum : ((f.num : ℤ) : ℚ) = f := Rat.den_eq_one_iff f |>.mp hden
  have hf0 : 0 ≤ f.num := Rat.num_nonneg.mpr hpos.le
  have hf1 : f.num ≤ 1000000 := by
    have hle := hfee f hf
    rw [← hnum] at hle
    exact_mod_cast hle
  have hafter : (d.withAmount a).amountInAfterFee ≤ (d.withAmount b).amountInAfterFee := by
    have hfeeTier : (d.poolState.feeTier.getD 0).num = f.num := by
      have hf : d.poolState.feeTier = some f := hf
      rw [hf, Option.getD_some]
    show toBigIntAmount a - (toBigIntAmount a * (d.poolState.feeTier.getD 0).num).tdiv _
      ≤ toBigIntAmount b - (toBigIntAmount b * (d.poolState.feeTier.getD 0).num).tdiv _
    rw [hfeeTier]
    exact amountInAfterFee_mono haccepted.amountIn.le hab hf0 hf1
  have hprices : ∀ t ∈ (d.withAmount a).sortedTicks.map TickState.price, 0 < t := by
    intro t ht
    obtain ⟨s, hs, rfl⟩ := List.mem_map.mp ht
    exact hticks s (mem_sortTicks.mp hs)
  have hmono : (d.withAmount a).final.totalOut ≤ (d.withAmount b).final.totalOut :=
    final_totalOut_mono hl.le hafter hprices hout
  refine ⟨⟨_, _, rfl, rfl, hmono⟩, ⟨_, _, rfl, rfl, ?_⟩⟩
  obtain ⟨x, hx, -, hle⟩ := haccepted.slippage
  have hslippage : (d.withAmount a).slippageBps = x := by
    rw [slippageBps, hx, Option.getD_some]
  exact minimumReceived_mono hout.le hmono (hslippage ▸ hle)

theorem quote_monotone_atOne :
    NumeralLE "1994" "3988" ∧ NumeralLE "1984" "3968" :=
  quote_monotone (atOne.withTicks (some [below])) (.text "1000") (.bigint 2000) (by decide)
    (by decide) (by decide) ⟨"1994", "3", "1984", "79228162514264337593543950336"⟩
    ⟨"3988", "6", "3968", "79228162514264337593543950336"⟩ (by decide +kernel) (by decide +kernel)

end Swyft.Sdk
