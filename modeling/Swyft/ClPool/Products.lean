import Swyft.ClPool.Road
import Swyft.ClPool.FeeShares

/-!
# The products of a swap

Inside its loop `swap` multiplies 128-bit words: `next_sqrt_price_from_input` with plain operators,
`accumulate_segment_fee` with checked ones. A product that does not fit stops the swap.

What is multiplied is decided by the road ahead and the input alone. A leg that is paid for
multiplies the fee on its cost by `Q96`; the leg the input runs out on multiplies the rest of the
input by the price, or by `Q96` on the way up. `LegsFit` says of a road that all of these fit, as
far along it as the swap gets before another check stops it.

## Main definitions

* `roundProducts` — the products a round of the loop works out
* `Leg.Fits` — those of a leg fit, in terms of its prices, its liquidity and the input
* `RoadFits` — all those along the road do

## Main results

* `swap_products_fit_iff` — no product of a swap overflows exactly if its road fits
-/

namespace Swyft.ClPool

open Checked

variable {p : Pool} {zeroForOne : Bool} {limit : ℕ}

/-! ### The products -/

/-- The products of `next_sqrt_price_from_input`, up to the first that does not fit. -/
def stepProducts (zeroForOne : Bool) (sqrtPrice liquidity amountIn : ℕ) : List ℕ :=
  if zeroForOne then
    if amountIn * sqrtPrice < 2 ^ 128 ∧ liquidity + amountIn * sqrtPrice / Q96 < 2 ^ 128 then
      [amountIn * sqrtPrice, liquidity * sqrtPrice]
    else [amountIn * sqrtPrice]
  else [amountIn * Q96]

/-- The fee on an amount. -/
def feeOn (feeTier amount : ℕ) : ℕ := amount * feeTier / feeDenominator

/-- The products of `accumulate_segment_fee`. -/
def feeProducts (feeTier liquidity amount : ℕ) : List ℕ :=
  if amount = 0 ∨ liquidity = 0 then [] else [amount * feeTier, feeOn feeTier amount * Q96]

/-- The output of a leg that is paid for. -/
def Leg.paid (zeroForOne : Bool) (leg : Leg) : ℕ :=
  amountPaid zeroForOne leg.price leg.target leg.liquidity

/-- The products of a leg, for an input and an output so far. The fee is worked out only once the
output has been added up. -/
def Leg.products (zeroForOne : Bool) (feeTier : ℕ) (leg : Leg) (amountIn amountOut : ℕ) : List ℕ :=
  if leg.cost zeroForOne ≤ amountIn then
    if amountOut + leg.paid zeroForOne < 2 ^ 128 then
      feeProducts feeTier leg.liquidity (leg.cost zeroForOne)
    else []
  else
    stepProducts zeroForOne leg.price leg.liquidity amountIn
      ++ match nextSqrtPriceFromInput leg.price leg.liquidity amountIn zeroForOne with
        | .ok next =>
          if amountOut + amountPaid zeroForOne leg.price next leg.liquidity < 2 ^ 128 then
            feeProducts feeTier leg.liquidity amountIn
          else []
        | .error _ => []

/-- The products a round of the loop works out. -/
def roundProducts (p : Pool) (zeroForOne : Bool) (limit : ℕ) (st : SwapState) : List ℕ :=
  match findTarget p zeroForOne limit st with
  | .ok (_, _, target) =>
    Leg.products zeroForOne p.feeTier ⟨st.sqrtPrice, target, st.liquidity⟩ st.amountRemaining
      st.amountOut
  | .error _ => []

/-! ### When they fit -/

/-- The fee growth of a leg that is paid for. -/
def Leg.growth (zeroForOne : Bool) (feeTier : ℕ) (leg : Leg) : ℕ :=
  feeOn feeTier (leg.cost zeroForOne) * Q96 / leg.liquidity

/-- The products of a leg fit. If the leg is paid for, the fee on it is below `2 ^ 32`; if the input
runs out on the way up, so is the input; on the way down the input and the liquidity fit with the
price, and the fee on the input is below `2 ^ 32`. -/
def Leg.Fits (zeroForOne : Bool) (feeTier : ℕ) (leg : Leg) (amountIn amountOut : ℕ) : Prop :=
  if leg.cost zeroForOne ≤ amountIn then
    amountOut + leg.paid zeroForOne < 2 ^ 128 → feeOn feeTier (leg.cost zeroForOne) < 2 ^ 32
  else if zeroForOne then
    amountIn * leg.price < 2 ^ 128 ∧
      (leg.liquidity + amountIn * leg.price / Q96 < 2 ^ 128 →
        leg.liquidity * leg.price < 2 ^ 128 ∧
          (amountOut + amountPaid true leg.price (insidePrice true leg.price leg.liquidity amountIn)
              leg.liquidity < 2 ^ 128 →
            feeOn feeTier amountIn < 2 ^ 32))
  else amountIn < 2 ^ 32

/-- The outputs of legs that are paid for. -/
def paids (zeroForOne : Bool) (legs : List Leg) : ℕ := (legs.map (Leg.paid zeroForOne)).sum

/-- Their fee growths. -/
def growths (zeroForOne : Bool) (feeTier : ℕ) (legs : List Leg) : ℕ :=
  (legs.map (Leg.growth zeroForOne feeTier)).sum

/-- All legs an input gets to fit: those before which it has not run out, nor the output or the fee
growth outgrown a word. -/
def LegsFit (zeroForOne : Bool) (feeTier amountIn amountOut grown : ℕ) (legs : List Leg) : Prop :=
  ∀ before leg after, legs = before ++ leg :: after → costs zeroForOne before < amountIn →
    amountOut + paids zeroForOne before < 2 ^ 128 →
    grown + growths zeroForOne feeTier before < 2 ^ 128 →
    leg.Fits zeroForOne feeTier (amountIn - costs zeroForOne before)
      (amountOut + paids zeroForOne before)

/-- The products along the road of a swap fit. -/
def RoadFits (p : Pool) (zeroForOne : Bool) (net limit : ℕ) : Prop :=
  LegsFit zeroForOne p.feeTier net 0 0 (road p zeroForOne limit)

section Legs

variable {feeTier amountIn amountOut grown : ℕ} {leg : Leg} {legs : List Leg}

theorem legsFit_nil : LegsFit zeroForOne feeTier amountIn amountOut grown [] := by
  intro before leg after hlegs
  simp at hlegs

/-- Nothing is asked of a road the swap does not get to. -/
theorem legsFit_of_stopped
    (h : amountIn = 0 ∨ 2 ^ 128 ≤ amountOut ∨ 2 ^ 128 ≤ grown) :
    LegsFit zeroForOne feeTier amountIn amountOut grown legs := by
  intro before leg after _ hcost hpaid hgrown
  omega

/-- A road fits if its first leg does and the rest does for what is left. -/
theorem legsFit_cons :
    LegsFit zeroForOne feeTier amountIn amountOut grown (leg :: legs) ↔
      (0 < amountIn → amountOut < 2 ^ 128 → grown < 2 ^ 128 →
        leg.Fits zeroForOne feeTier amountIn amountOut) ∧
      LegsFit zeroForOne feeTier (amountIn - leg.cost zeroForOne)
        (amountOut + leg.paid zeroForOne) (grown + leg.growth zeroForOne feeTier) legs := by
  have hcons : ∀ before, costs zeroForOne (leg :: before)
        = leg.cost zeroForOne + costs zeroForOne before ∧
      paids zeroForOne (leg :: before) = leg.paid zeroForOne + paids zeroForOne before ∧
      growths zeroForOne feeTier (leg :: before)
        = leg.growth zeroForOne feeTier + growths zeroForOne feeTier before := fun before => by
    simp only [costs, paids, growths, List.map_cons, List.sum_cons, and_self]
  constructor
  · intro h
    refine ⟨h [] leg legs rfl, fun before leg' after hlegs hcost hpaid hgrown => ?_⟩
    obtain ⟨hcosts, hpaids, hgrowths⟩ := hcons before
    have hfits := h (leg :: before) leg' after (by rw [hlegs]; rfl) (by omega) (by omega)
      (by omega)
    rw [hcosts, hpaids, Nat.sub_add_eq, ← Nat.add_assoc] at hfits
    exact hfits
  · rintro ⟨hfirst, hrest⟩ before leg' after hlegs hcost hpaid hgrown
    cases before with
    | nil =>
      obtain ⟨rfl, rfl⟩ : leg = leg' ∧ legs = after := by simpa using hlegs
      exact hfirst hcost hpaid hgrown
    | cons first before =>
      simp only [List.cons_append, List.cons.injEq] at hlegs
      obtain ⟨rfl, hlegs⟩ := hlegs
      obtain ⟨hcosts, hpaids, hgrowths⟩ := hcons before
      rw [hcosts] at hcost ⊢
      rw [hpaids] at hpaid ⊢
      rw [hgrowths] at hgrown
      rw [Nat.sub_add_eq, ← Nat.add_assoc]
      exact hrest before leg' after hlegs (by omega) (by omega) (by omega)

/-! ### One leg -/

theorem feeOn_mul_lt_iff {amount : ℕ} :
    feeOn feeTier amount * Q96 < 2 ^ 128 ↔ feeOn feeTier amount < 2 ^ 32 := by
  rw [Q96]
  omega

/-- The checked products of a fee: the first fits with the entry check, the second when the fee is
small. -/
theorem feeProducts_fit_iff {liquidity amount : ℕ} (hfee : amount * feeTier < 2 ^ 128)
    (hzero : liquidity = 0 → amount = 0) :
    (∀ x ∈ feeProducts feeTier liquidity amount, x < 2 ^ 128) ↔ feeOn feeTier amount < 2 ^ 32 := by
  rw [feeProducts]
  split
  case isTrue hnone =>
    obtain rfl : amount = 0 := hnone.elim id hzero
    simp [feeOn]
  case isFalse =>
    rw [List.forall_mem_cons, List.forall_mem_singleton, feeOn_mul_lt_iff]
    exact and_iff_right hfee

/-- When the step down has a result. -/
theorem nextSqrtPrice_down_eq_ok {sqrtPrice liquidity next : ℕ} (hl : liquidity ≠ 0) :
    nextSqrtPriceFromInput sqrtPrice liquidity amountIn true = .ok next ↔
      amountIn * sqrtPrice < 2 ^ 128 ∧ liquidity + amountIn * sqrtPrice / Q96 < 2 ^ 128 ∧
        liquidity * sqrtPrice < 2 ^ 128 ∧
        insidePrice true sqrtPrice liquidity amountIn = next := by
  have hdenom : liquidity + amountIn * sqrtPrice / Q96 ≠ 0 :=
    (Nat.add_pos_left (Nat.pos_of_ne_zero hl) _).ne'
  simp only [nextSqrtPriceFromInput, if_neg hl, if_true, bind_eq_ok, mulU128_eq_ok, addU128_eq_ok]
  constructor
  · rintro ⟨_, ⟨hproduct, rfl⟩, _, ⟨hsum, rfl⟩, h⟩
    simp only [if_neg hdenom, bind_eq_ok, mulU128_eq_ok, divU128_eq_ok] at h
    obtain ⟨_, ⟨hscaled, rfl⟩, -, rfl⟩ := h
    exact ⟨hproduct, hsum, hscaled, rfl⟩
  · rintro ⟨hproduct, hsum, hscaled, rfl⟩
    refine ⟨_, ⟨hproduct, rfl⟩, _, ⟨hsum, rfl⟩, ?_⟩
    simp only [if_neg hdenom, bind_eq_ok, mulU128_eq_ok, divU128_eq_ok]
    exact ⟨_, ⟨hscaled, rfl⟩, hdenom, rfl⟩

theorem cost_of_no_liquidity (h : leg.liquidity = 0) : leg.cost zeroForOne = 0 := by
  cases zeroForOne <;> simp [Leg.cost, amountConsumed, getAmount0Delta, getAmount1Delta, h]

/-- **The products of a leg fit exactly if `Leg.Fits` says so**, for an input whose fee fits. -/
theorem products_fit_iff (hfee : amountIn * feeTier < 2 ^ 128) (htier : feeTier ≤ feeDenominator) :
    (∀ x ∈ leg.products zeroForOne feeTier amountIn amountOut, x < 2 ^ 128) ↔
      leg.Fits zeroForOne feeTier amountIn amountOut := by
  rw [Leg.products, Leg.Fits]
  by_cases hcost : leg.cost zeroForOne ≤ amountIn
  · rw [if_pos hcost, if_pos hcost]
    have hfee' : leg.cost zeroForOne * feeTier < 2 ^ 128 :=
      lt_of_le_of_lt (Nat.mul_le_mul_right _ hcost) hfee
    by_cases hout : amountOut + leg.paid zeroForOne < 2 ^ 128
    · rw [if_pos hout, feeProducts_fit_iff hfee' cost_of_no_liquidity]
      exact ⟨fun h _ => h, fun h => h hout⟩
    · rw [if_neg hout]
      exact iff_of_true (List.forall_mem_nil _) fun h => absurd h hout
  · have hl : leg.liquidity ≠ 0 := fun h0 => hcost (by rw [cost_of_no_liquidity h0]; omega)
    rw [if_neg hcost, if_neg hcost, List.forall_mem_append]
    cases zeroForOne with
    | true =>
      simp only [stepProducts, if_true]
      by_cases hproduct : amountIn * leg.price < 2 ^ 128
      case neg =>
        refine iff_of_false (fun h => hproduct ?_) fun h => hproduct h.1
        rw [if_neg fun h => hproduct h.1] at h
        exact h.1 _ List.mem_cons_self
      by_cases hsum : leg.liquidity + amountIn * leg.price / Q96 < 2 ^ 128
      case neg =>
        have herror : ∀ next,
            nextSqrtPriceFromInput leg.price leg.liquidity amountIn true ≠ .ok next := fun next h =>
          hsum ((nextSqrtPrice_down_eq_ok hl).mp h).2.1
        rw [if_neg fun h => hsum h.2]
        refine iff_of_true ⟨List.forall_mem_singleton.mpr hproduct, ?_⟩
          ⟨hproduct, fun h => absurd h hsum⟩
        split
        case h_1 next hnext => exact absurd hnext (herror next)
        case h_2 => exact List.forall_mem_nil _
      rw [if_pos ⟨hproduct, hsum⟩]
      by_cases hscaled : leg.liquidity * leg.price < 2 ^ 128
      case neg =>
        refine iff_of_false (fun h => hscaled (h.1 _ (by simp))) fun h => hscaled (h.2 hsum).1
      rw [(nextSqrtPrice_down_eq_ok hl).mpr ⟨hproduct, hsum, hscaled, rfl⟩]
      have hfirst : ∀ x ∈ [amountIn * leg.price, leg.liquidity * leg.price], x < 2 ^ 128 :=
        List.forall_mem_cons.mpr ⟨hproduct, List.forall_mem_singleton.mpr hscaled⟩
      simp only
      split
      case isTrue hout =>
        rw [feeProducts_fit_iff hfee fun h => absurd h hl]
        exact ⟨fun h => ⟨hproduct, fun _ => ⟨hscaled, fun _ => h.2⟩⟩,
          fun h => ⟨hfirst, (h.2 hsum).2 hout⟩⟩
      case isFalse hout =>
        exact iff_of_true ⟨hfirst, List.forall_mem_nil _⟩
          ⟨hproduct, fun _ => ⟨hscaled, fun h => absurd h hout⟩⟩
    | false =>
      simp only [stepProducts, Bool.false_eq_true, if_false, List.forall_mem_singleton]
      have hscaled : amountIn * Q96 < 2 ^ 128 ↔ amountIn < 2 ^ 32 := by
        rw [Q96]
        omega
      rw [hscaled]
      refine ⟨fun h => h.1, fun hin => ⟨hin, ?_⟩⟩
      have hsmall : feeOn feeTier amountIn < 2 ^ 32 := by
        refine lt_of_le_of_lt ?_ hin
        exact Nat.div_le_of_le_mul (by rw [Nat.mul_comm]; exact Nat.mul_le_mul_right _ htier)
      split
      · split
        · exact (feeProducts_fit_iff hfee fun h => absurd h hl).mpr hsmall
        · exact List.forall_mem_nil _
      · exact List.forall_mem_nil _

end Legs

/-! ### One round -/

section Round

variable {st crossed : SwapState} {d0 d1 amount feeTier liquidity : ℕ}

/-- Both accumulators after a growth of the input's, if that fits. -/
def grown (zeroForOne : Bool) (d0 d1 growth : ℕ) : Res (ℕ × ℕ) :=
  if (inputAsset zeroForOne).pick d0 d1 + growth < 2 ^ 128 then
    .ok (if zeroForOne then (d0 + growth, d1) else (d0, d1 + growth))
  else .error (poolError .overflow)

theorem grown_zero (h : (inputAsset zeroForOne).pick d0 d1 < 2 ^ 128) :
    grown zeroForOne d0 d1 0 = .ok (d0, d1) := by
  rw [grown, Nat.add_zero, if_pos h]
  cases zeroForOne <;> rfl

theorem grown_eq_ok {growth e0 e1 : ℕ} (h : grown zeroForOne d0 d1 growth = .ok (e0, e1)) :
    (inputAsset zeroForOne).pick d0 d1 + growth < 2 ^ 128 ∧
      (inputAsset zeroForOne).pick e0 e1 = (inputAsset zeroForOne).pick d0 d1 + growth := by
  rw [grown] at h
  split at h
  case isTrue hlt =>
    refine ⟨hlt, ?_⟩
    cases zeroForOne <;>
    · cases h
      rfl
  case isFalse => cases h

theorem exists_grown {growth : ℕ} (h : (inputAsset zeroForOne).pick d0 d1 + growth < 2 ^ 128) :
    ∃ e, grown zeroForOne d0 d1 growth = .ok e :=
  ⟨_, if_pos h⟩

/-- `accumulate_segment_fee` where its products fit: it adds the growth, if that fits too. -/
theorem accumulateSegmentFee_eq (hfee : amount * feeTier < 2 ^ 128)
    (hscaled : feeOn feeTier amount < 2 ^ 32)
    (hfit : (inputAsset zeroForOne).pick d0 d1 < 2 ^ 128) :
    accumulateSegmentFee d0 d1 zeroForOne amount feeTier liquidity =
      grown zeroForOne d0 d1 (feeOn feeTier amount * Q96 / liquidity) := by
  have hchecked : checkedFee amount feeTier = .ok (feeOn feeTier amount) :=
    checkedFee_eq_ok.mpr ⟨hfee, rfl⟩
  have hproduct : fitU 128 (poolError .overflow) (feeOn feeTier amount * Q96)
      = .ok (feeOn feeTier amount * Q96) := fitU_of_lt (feeOn_mul_lt_iff.mpr hscaled)
  rw [accumulateSegmentFee]
  split
  case isTrue h0 =>
    have hzero : feeOn feeTier amount * Q96 / liquidity = 0 := by
      rcases h0 with rfl | rfl
      · simp [feeOn]
      · exact Nat.div_zero _
    rw [hzero, grown_zero hfit]
    rfl
  case isFalse =>
    rw [hchecked, ok_bind]
    split
    case isTrue h0 =>
      rw [h0, Nat.zero_mul, Nat.zero_div, grown_zero hfit]
      rfl
    case isFalse =>
      rw [hproduct, ok_bind]
      cases zeroForOne <;>
      · simp only [grown, inputAsset, Asset.pick, if_true, Bool.false_eq_true, if_false]
        split
        case isTrue hlt => rw [fitU_of_lt hlt]; rfl
        case isFalse hge => rw [fitU_of_ge (not_lt.mp hge)]; rfl

/-- A growth that fits is added to the input's accumulator. -/
theorem accumulate_fits (hfee : amount * feeTier < 2 ^ 128)
    (hscaled : feeOn feeTier amount < 2 ^ 32)
    (hfit : (inputAsset zeroForOne).pick d0 d1 + feeOn feeTier amount * Q96 / liquidity < 2 ^ 128) :
    ∃ e0 e1, accumulateSegmentFee d0 d1 zeroForOne amount feeTier liquidity = .ok (e0, e1) ∧
      (inputAsset zeroForOne).pick e0 e1
        = (inputAsset zeroForOne).pick d0 d1 + feeOn feeTier amount * Q96 / liquidity := by
  rw [accumulateSegmentFee_eq hfee hscaled (lt_of_le_of_lt (Nat.le_add_right _ _) hfit)]
  obtain ⟨⟨e0, e1⟩, hgrown⟩ := exists_grown hfit
  exact ⟨e0, e1, hgrown, (grown_eq_ok hgrown).2⟩

/-- One that does not stops the swap. -/
theorem accumulate_overflows {e : ℕ × ℕ} (hfee : amount * feeTier < 2 ^ 128)
    (hscaled : feeOn feeTier amount < 2 ^ 32) (hd : (inputAsset zeroForOne).pick d0 d1 < 2 ^ 128)
    (h : accumulateSegmentFee d0 d1 zeroForOne amount feeTier liquidity = .ok e) :
    (inputAsset zeroForOne).pick d0 d1 + feeOn feeTier amount * Q96 / liquidity < 2 ^ 128 := by
  rw [accumulateSegmentFee_eq hfee hscaled hd] at h
  exact (grown_eq_ok h).1

/-- The net liquidity at a tick is read without a trap, unless it is the smallest `i128`. -/
theorem netAtTick_ok {ticks : Ticks} {tick : ℤ}
    (h : -2 ^ 127 < (readTick ticks tick).liquidityNet)
    (h' : (readTick ticks tick).liquidityNet < 2 ^ 127) :
    netAtTick ticks tick = .ok (readTick ticks tick).liquidityNet.natAbs := by
  rw [netAtTick]
  split
  case isTrue hneg =>
    have hnegated : negI128 (readTick ticks tick).liquidityNet
        = .ok (-(readTick ticks tick).liquidityNet) := negI128_eq_ok.mpr ⟨by omega, rfl⟩
    rw [hnegated, ok_bind]
    refine pure_eq_ok.mpr ?_
    omega
  case isFalse =>
    refine pure_eq_ok.mpr ?_
    omega

/-- What holds of the loop's variables whatever it multiplies. -/
structure Bounded (p : Pool) (zeroForOne : Bool) (st : SwapState) : Prop where
  nets : SameNets p st
  input : st.amountRemaining * p.feeTier < 2 ^ 128
  output : st.amountOut < 2 ^ 128
  growth : st.delta (inputAsset zeroForOne) < 2 ^ 128

/-- The leg a round goes through. -/
def SwapState.leg (st : SwapState) (target : ℕ) : Leg := ⟨st.sqrtPrice, target, st.liquidity⟩

/-- The swap gets beyond a leg. -/
structure Passes (p : Pool) (zeroForOne : Bool) (limit : ℕ) (st : SwapState) (leg : Leg)
    (initialized : Bool) : Prop where
  paid : leg.cost zeroForOne < st.amountRemaining
  output : st.amountOut + leg.paid zeroForOne < 2 ^ 128
  growth : st.delta (inputAsset zeroForOne) + leg.growth zeroForOne p.feeTier < 2 ^ 128
  found : initialized = true
  inside : ¬ atLimit zeroForOne leg.target limit

/-- The loop state beyond a leg. -/
structure Beyond (p : Pool) (zeroForOne : Bool) (st : SwapState) (leg : Leg) (next : ℤ)
    (crossed : SwapState) : Prop where
  price : crossed.sqrtPrice = leg.target
  liquidity : crossed.liquidity = liquidityBeyond p zeroForOne st.liquidity next
  tick : crossed.currentTick = next
  remaining : crossed.amountRemaining = st.amountRemaining - leg.cost zeroForOne
  output : crossed.amountOut = st.amountOut + leg.paid zeroForOne
  growth : crossed.delta (inputAsset zeroForOne)
    = st.delta (inputAsset zeroForOne) + leg.growth zeroForOne p.feeTier
  nets : SameNets p crossed

variable {next : ℤ} {initialized : Bool}

/-- A fitting leg is passed, and its tick crossed, if the swap gets beyond it. -/
theorem swapStep_passes (h : Bounded p zeroForOne st)
    (hnets : ∀ t, -2 ^ 127 < netAt p t ∧ netAt p t < 2 ^ 127)
    (hsearch : searchTick p zeroForOne st.currentTick = .ok (next, initialized))
    (hfits : (st.leg (swapTarget zeroForOne limit next initialized)).Fits zeroForOne p.feeTier
      st.amountRemaining st.amountOut)
    (hpasses : Passes p zeroForOne limit st
      (st.leg (swapTarget zeroForOne limit next initialized)) initialized) :
    ∃ crossed, swapStep p zeroForOne limit st
        = .ok (crossed, decide (crossed.liquidity ≠ 0)) ∧
      Beyond p zeroForOne st (st.leg (swapTarget zeroForOne limit next initialized)) next
        crossed := by
  obtain rfl : initialized = true := hpasses.found
  set target := swapTarget zeroForOne limit next true
  have hcost : amountConsumed zeroForOne st.sqrtPrice target st.liquidity < st.amountRemaining :=
    hpasses.paid
  rw [Leg.Fits, if_pos hpasses.paid.le] at hfits
  have hfee : amountConsumed zeroForOne st.sqrtPrice target st.liquidity * p.feeTier < 2 ^ 128 :=
    lt_of_le_of_lt (Nat.mul_le_mul_right _ hcost.le) h.input
  obtain ⟨e0, e1, hfees, hgrown⟩ := accumulate_fits hfee (hfits hpasses.output) hpasses.growth
  obtain ⟨moved, hmove, hmoved⟩ : ∃ moved, fullMove p zeroForOne st target = .ok moved ∧
      moved = { st with
        amountRemaining := st.amountRemaining
          - amountConsumed zeroForOne st.sqrtPrice target st.liquidity
        amountOut := st.amountOut + amountPaid zeroForOne st.sqrtPrice target st.liquidity
        feeGrowthDelta0 := e0
        feeGrowthDelta1 := e1
        sqrtPrice := target } :=
    ⟨_, fullMove_eq_ok.mpr ⟨hpasses.output, hcost.le, e0, e1, hfees, rfl⟩, rfl⟩
  have hticks : moved.ticks = st.ticks := by rw [hmoved]
  obtain ⟨crossed, hcross⟩ : ∃ crossed, crossNext p zeroForOne moved next = .ok crossed := by
    have hnet : netAtTick moved.ticks next = .ok (netAt p next).natAbs := by
      rw [hticks, ← h.nets next]
      exact netAtTick_ok (by rw [h.nets next]; exact (hnets next).1)
        (by rw [h.nets next]; exact (hnets next).2)
    rw [crossNext, hnet, ok_bind]
    exact ⟨_, rfl⟩
  have hspare : moved.amountRemaining ≠ 0 := by
    rw [hmoved]
    exact Nat.sub_ne_zero_of_lt hcost
  have hinside : ¬ atLimit zeroForOne moved.sqrtPrice limit := by
    rw [hmoved]
    exact hpasses.inside
  have hstep := swapStep_cross (findTarget_eq_ok.mpr ⟨hsearch, rfl⟩) hmove hspare hinside hcross
  obtain ⟨hnets', hprice, hliquidity, htick, hremaining⟩ :=
    SameNets.cross (fun t => by rw [hticks]; exact h.nets t) hcross
  refine ⟨crossed, hstep, ?_⟩
  have hcrossed := crossNext_eq_ok hcross
  refine ⟨hprice.trans (by rw [hmoved]; rfl), hliquidity.trans (by rw [hmoved]), htick,
    hremaining.trans (by rw [hmoved]; rfl), ?_, ?_, hnets'⟩
  · rw [hcrossed, hmoved]
    rfl
  · have hdelta : crossed.delta (inputAsset zeroForOne) = (inputAsset zeroForOne).pick e0 e1 := by
      simp only [SwapState.delta, hcrossed, hmoved]
    exact hdelta.trans hgrown

/-- A round that goes on has passed its leg. -/
theorem passes_of_goesOn (h : Bounded p zeroForOne st)
    (hsearch : searchTick p zeroForOne st.currentTick = .ok (next, initialized))
    (hfits : (st.leg (swapTarget zeroForOne limit next initialized)).Fits zeroForOne p.feeTier
      st.amountRemaining st.amountOut)
    (hstep : swapStep p zeroForOne limit st = .ok (crossed, true)) :
    Passes p zeroForOne limit st (st.leg (swapTarget zeroForOne limit next initialized))
      initialized := by
  generalize hgoes : true = goesOn at hstep
  cases swapStep_cases hstep with
  | stop => cases hgoes
  | within => cases hgoes
  | cross found move spare inside crossing =>
    obtain ⟨hsearch', rfl⟩ := findTarget_eq_ok.mp found
    rw [hsearch] at hsearch'
    cases hsearch'
    obtain ⟨hout, hle, e0, e1, hfees, rfl⟩ := fullMove_eq_ok.mp move
    have hcost : (st.leg (swapTarget zeroForOne limit next true)).cost zeroForOne
      ≤ st.amountRemaining := hle
    rw [Leg.Fits, if_pos hcost] at hfits
    have hfee : amountConsumed zeroForOne st.sqrtPrice (swapTarget zeroForOne limit next true)
        st.liquidity * p.feeTier < 2 ^ 128 :=
      lt_of_le_of_lt (Nat.mul_le_mul_right _ hle) h.input
    exact ⟨Nat.sub_ne_zero_iff_lt.mp spare, hout,
      accumulate_overflows hfee (hfits hout) h.growth hfees, rfl, inside⟩

end Round

/-! ### The whole loop -/

/-- Beyond a leg the loop's variables are still bounded. -/
theorem Beyond.bounded {st crossed : SwapState} {leg : Leg} {next : ℤ} {initialized : Bool}
    (h : Beyond p zeroForOne st leg next crossed) (hst : Bounded p zeroForOne st)
    (hpasses : Passes p zeroForOne limit st leg initialized) : Bounded p zeroForOne crossed where
  nets := h.nets
  input := by
    rw [h.remaining]
    exact lt_of_le_of_lt (Nat.mul_le_mul_right _ (Nat.sub_le _ _)) hst.input
  output := by
    rw [h.output]
    exact hpasses.output
  growth := by
    rw [h.growth]
    exact hpasses.growth

/-- The products of the rounds after `st`. -/
theorem visited_rest {st : SwapState} {rounds : ℕ} {Q : SwapState → Prop}
    (hstops : ∀ crossed, swapStep p zeroForOne limit st ≠ .ok (crossed, true)) :
    ∀ s ∈ (match swapStep p zeroForOne limit st with
      | .ok (st', true) => visited p zeroForOne limit rounds st'
      | _ => []), Q s := by
  split
  case h_1 st' hstep => exact absurd hstep (hstops st')
  case h_2 => exact List.forall_mem_nil _

/-- **The products of a loop fit exactly if its road does**, from any state within bounds. -/
theorem visited_fit_iff (hnets : ∀ t, -2 ^ 127 < netAt p t ∧ netAt p t < 2 ^ 127)
    (htier : p.feeTier ≤ feeDenominator) :
    ∀ {rounds : ℕ} {st : SwapState}, Bounded p zeroForOne st →
      ((∀ s ∈ visited p zeroForOne limit rounds st, ∀ x ∈ roundProducts p zeroForOne limit s,
          x < 2 ^ 128) ↔
        LegsFit zeroForOne p.feeTier st.amountRemaining st.amountOut
          (st.delta (inputAsset zeroForOne)) (roadAhead p zeroForOne limit rounds st))
  | 0, st, _ => iff_of_true (List.forall_mem_nil _) legsFit_nil
  | rounds + 1, st, h => by
    by_cases hrem : st.amountRemaining = 0
    · rw [visited, if_pos hrem]
      exact iff_of_true (List.forall_mem_nil _) (legsFit_of_stopped (.inl hrem))
    rw [visited, if_neg hrem, List.forall_mem_cons, roadAhead]
    cases hsearch : searchTick p zeroForOne st.currentTick with
    | error e =>
      have hnone : ∀ found, findTarget p zeroForOne limit st ≠ .ok found := by
        rintro ⟨next, initialized, target⟩ hfound
        have := (findTarget_eq_ok.mp hfound).1
        rw [hsearch] at this
        cases this
      have hproducts : roundProducts p zeroForOne limit st = [] := by
        rw [roundProducts]
        split
        case h_1 hfound => exact absurd hfound (hnone _)
        case h_2 => rfl
      rw [roadFrom_error hsearch, hproducts]
      refine iff_of_true ⟨List.forall_mem_nil _, visited_rest fun crossed hstep => ?_⟩ legsFit_nil
      obtain ⟨next, initialized, target, hfound⟩ := swapStep_found hstep
      exact hnone _ hfound
    | ok found =>
      obtain ⟨next, initialized⟩ := found
      have hfound : findTarget p zeroForOne limit st
          = .ok (next, initialized, swapTarget zeroForOne limit next initialized) :=
        findTarget_eq_ok.mpr ⟨hsearch, rfl⟩
      rw [roadFrom_found hsearch]
      change _ ↔ LegsFit _ _ _ _ _ (st.leg (swapTarget zeroForOne limit next initialized) :: _)
      set leg := st.leg (swapTarget zeroForOne limit next initialized) with hleg
      have hproducts : (∀ x ∈ roundProducts p zeroForOne limit st, x < 2 ^ 128) ↔
          leg.Fits zeroForOne p.feeTier st.amountRemaining st.amountOut := by
        simp only [roundProducts, hfound]
        exact products_fit_iff h.input htier
      have hfirst : (0 < st.amountRemaining → st.amountOut < 2 ^ 128 →
          st.delta (inputAsset zeroForOne) < 2 ^ 128 →
            leg.Fits zeroForOne p.feeTier st.amountRemaining st.amountOut) ↔
          leg.Fits zeroForOne p.feeTier st.amountRemaining st.amountOut :=
        ⟨fun hall => hall (Nat.pos_of_ne_zero hrem) h.output h.growth, fun hfits _ _ _ => hfits⟩
      rw [legsFit_cons, hproducts, hfirst]
      refine and_congr_right fun hfits => ?_
      by_cases hpasses : Passes p zeroForOne limit st leg initialized
      · obtain ⟨crossed, hstep, hbeyond⟩ := swapStep_passes h hnets hsearch hfits hpasses
        have hinside : ¬ atLimit zeroForOne (swapTarget zeroForOne limit next initialized) limit :=
          hpasses.inside
        rw [hstep]
        by_cases hend : crossed.liquidity = 0
        · rw [decide_eq_false (not_not.mpr hend),
            if_pos (.inr (.inr (hbeyond.liquidity.symm.trans hend)))]
          exact iff_of_true (List.forall_mem_nil _) legsFit_nil
        · rw [decide_eq_true hend, if_neg]
          · refine (visited_fit_iff hnets htier (hbeyond.bounded h hpasses)).trans ?_
            rw [roadAhead, hbeyond.price, hbeyond.liquidity, hbeyond.tick, hbeyond.remaining,
              hbeyond.output, hbeyond.growth]
            exact Iff.rfl
          · rintro (hlast | hlimit | hzero)
            · rw [hpasses.found] at hlast
              cases hlast
            · exact hinside hlimit
            · exact hend (hbeyond.liquidity.trans hzero)
      · refine iff_of_true (visited_rest fun crossed hstep => ?_) ?_
        · exact hpasses (passes_of_goesOn h hsearch hfits hstep)
        · -- nothing is asked of the rest of the road: the swap stops on this leg
          split
          case isTrue => exact legsFit_nil
          case isFalse hgoes =>
            push Not at hgoes
            refine legsFit_of_stopped ?_
            by_contra hon
            push Not at hon
            obtain ⟨hleft, hout, hgrowth⟩ := hon
            exact hpasses ⟨by omega, hout, hgrowth, by simpa using hgoes.1, hgoes.2.1⟩

/-! ### A swap -/

/-- The net liquidity of every tick is far inside an `i128`. -/
theorem Reachable.netAt_bounds {w : World} (hw : Reachable w) (t : ℤ) :
    -2 ^ 127 < netAt w.pool t ∧ netAt w.pool t < 2 ^ 127 := by
  have hstarting : startingAt w.pool.positions t < 2 ^ 96 := hw.wf.liquidityWhere_lt _
  have hending : endingAt w.pool.positions t < 2 ^ 96 := hw.wf.liquidityWhere_lt _
  rw [netAt_eq hw.ticksAgree]
  omega

theorem Wf.feeTier_le {w : World} (hw : Wf w) : w.pool.feeTier ≤ feeDenominator := by
  rcases hw.feeTier with h | h | h <;> rw [h] <;> decide

/-- **No product of a swap overflows exactly if its road fits**: in every reachable state, in both
directions, for every input that passes the entry checks and every limit. -/
theorem swap_products_fit_iff {w : World} (hw : Reachable w) {amountIn net : ℕ}
    (hnet : netInput w.pool amountIn = .ok net) :
    (∀ st ∈ swapRounds w.pool zeroForOne amountIn limit,
        ∀ x ∈ roundProducts w.pool zeroForOne limit st, x < 2 ^ 128) ↔
      RoadFits w.pool zeroForOne net limit := by
  have hbounded : Bounded w.pool zeroForOne (swapStart w.pool net) := by
    refine ⟨.start _ _, ?_, Nat.two_pow_pos 128, ?_⟩
    · simp only [netInput, bind_eq_ok, require_eq_ok, exists_const, checkedFee_eq_ok, subU_eq_ok]
        at hnet
      obtain ⟨-, _, ⟨hfee, rfl⟩, -, rfl⟩ := hnet
      exact lt_of_le_of_lt (Nat.mul_le_mul_right _ (Nat.sub_le _ _)) hfee
    · cases zeroForOne <;> exact Nat.two_pow_pos 128
  have hstart : (swapStart w.pool net).delta (inputAsset zeroForOne) = 0 := by
    cases zeroForOne <;> rfl
  have hloop : (∀ st ∈ visited w.pool zeroForOne limit maxSwapIterations (swapStart w.pool net),
        ∀ x ∈ roundProducts w.pool zeroForOne limit st, x < 2 ^ 128) ↔ _ :=
    visited_fit_iff hw.netAt_bounds hw.wf.feeTier_le hbounded
  simp only [swapRounds, hnet]
  rw [hstart] at hloop
  exact hloop

/-- A small swap across a tick. -/
theorem swap_products_fit_across_tick :
    ∃ w, Reachable w ∧ netInput w.pool 5000 = .ok 4985 ∧ RoadFits w.pool false 4985 u128Max := by
  obtain ⟨w, hr, hnet, hfit⟩ := exists_reachable 3000 unitPrice
    [.addLiquidity ⟨7⟩ (-60) 60 1000000, .addLiquidity ⟨7⟩ 60 120 3000000]
    (fun w => netInput w.pool 5000 = .ok 4985 ∧
      ∀ st ∈ swapRounds w.pool false 5000 u128Max,
        ∀ x ∈ roundProducts w.pool false u128Max st, x < 2 ^ 128)
    (by decide)
  exact ⟨w, hr, hnet, (swap_products_fit_iff hr hnet).mp hfit⟩

/-- **A swap that traps.** In a range that would take in more than `2 ^ 40` of token 0, an input of
`2 ^ 33` is multiplied by the unit price of `2 ^ 96`. -/
theorem swap_overflows :
    ∃ w, Reachable w ∧ 0 < w.pool.liquidity ∧
      (Yields (netInput w.pool (2 ^ 33)) fun _ => True) ∧
      errorOf (swap w ⟨9⟩ true (2 ^ 33) 0) = some .arithmetic ∧
      ¬ ∀ st ∈ swapRounds w.pool true (2 ^ 33) 0,
        ∀ x ∈ roundProducts w.pool true 0 st, x < 2 ^ 128 :=
  exists_reachable 3000 unitPrice [.addLiquidity ⟨7⟩ (-19980) 19980 2147483648] _
    (by decide)

end Swyft.ClPool
