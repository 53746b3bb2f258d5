import Swyft.Sdk.Quote
import Swyft.ClPool.Ladder

/-!
# When a quote is what the pool pays

The client and the pool walk the same ladder of ticks, but price a segment differently. The client
works with ratios of the two prices where the pool works with differences in units of `Q96`, it
keeps the liquidity it started with, and it pays for part of a segment in proportion. A quote is
right when none of this makes a difference on the segments it walks.

## Main definitions

* `Mirrored` — every whole segment costs and pays the same on both sides, and ends at a tick
  without net liquidity unless the input ends there
* `ShareAgrees` — the client's share of a last segment is what the pool pays for it
* `Quotes` — the parameters of a quote describe a pool and a swap of it
* `Sighted` — the pool's tick and its price see the same initialised ticks ahead

## Main results

* `loops_agree` — the two loops, segment by segment
* `quote_mirrors_swap` — the quote is right when all segments agree, and on the last segment only
  then
-/

namespace Swyft.Sdk

open Checked ClPool

variable {p : Pool} {zeroForOne : Bool}

/-! ### Segments -/

/-- The client's share of a segment that it leaves unfinished is what the pool pays for the same
input. -/
def ShareAgrees (zeroForOne : Bool) (liquidity current remaining target : ℕ) : Prop :=
  segmentOut zeroForOne liquidity current target * remaining
      / segmentIn zeroForOne liquidity current target
    = amountPaid zeroForOne current (insidePrice zeroForOne current liquidity remaining) liquidity

instance (zeroForOne : Bool) (liquidity current remaining target : ℕ) :
    Decidable (ShareAgrees zeroForOne liquidity current remaining target) :=
  inferInstanceAs (Decidable (_ = _))

/-- Along a ladder of ticks, from the price `current` and with `remaining` to trade: each whole
segment takes in and gives out the same on both sides, the input ends with it or the tick at its
end carries no net liquidity, and on the segment where the input ends both sides stop and `last`
holds. -/
def Mirrored (last : (current remaining target : ℕ) → Prop) (p : Pool) (zeroForOne : Bool)
    (liquidity : ℕ) : (current remaining : ℕ) → List ℤ → Prop
  | _, _, [] => True
  | current, remaining, t :: ts =>
    let target := tickToSqrtPrice t
    let taken := segmentIn zeroForOne liquidity current target
    if taken ≤ remaining then
      amountConsumed zeroForOne current target liquidity = taken ∧
      amountPaid zeroForOne current target liquidity
        = segmentOut zeroForOne liquidity current target ∧
      (remaining = taken ∨ netAt p t = 0 ∧
        Mirrored last p zeroForOne liquidity target (remaining - taken) ts)
    else
      remaining < amountConsumed zeroForOne current target liquidity ∧
      last current remaining target

instance decidableMirrored (last : ℕ → ℕ → ℕ → Prop) [∀ c r t, Decidable (last c r t)] (p : Pool)
    (zeroForOne : Bool) (liquidity : ℕ) :
    (current remaining : ℕ) → (ts : List ℤ) →
      Decidable (Mirrored last p zeroForOne liquidity current remaining ts)
  | _, _, [] => instDecidableTrue
  | current, remaining, t :: ts =>
    have := decidableMirrored last p zeroForOne liquidity (tickToSqrtPrice t)
      (remaining - segmentIn zeroForOne liquidity current (tickToSqrtPrice t)) ts
    by unfold Mirrored; infer_instance

theorem Mirrored.mono {last last' : ℕ → ℕ → ℕ → Prop} {liquidity : ℕ}
    (himp : ∀ c r t, last c r t → last' c r t) {current remaining : ℕ} {ts : List ℤ}
    (h : Mirrored last p zeroForOne liquidity current remaining ts) :
    Mirrored last' p zeroForOne liquidity current remaining ts := by
  induction ts generalizing current remaining with
  | nil => trivial
  | cons t ts ih =>
    simp only [Mirrored] at h ⊢
    split_ifs at h ⊢ with hle
    · obtain ⟨hin, hout, hend⟩ := h
      exact ⟨hin, hout, hend.imp_right fun ⟨hnet, hrest⟩ => ⟨hnet, ih hrest⟩⟩
    · exact ⟨h.1, himp _ _ _ h.2⟩

/-! ### The two loops -/

/-- The ticks a quote is given, on a ladder. -/
structure Rungs (ticks : List TickState) (zeroForOne : Bool) (k : ℤ) (current : ℕ) (p : Pool) :
    Prop where
  ladder : Ladder p zeroForOne k (ticks.map TickState.tick)
  prices : ∀ s ∈ ticks, Js.bigInt s.sqrtPriceX96 = some (tickToSqrtPrice s.tick : ℤ)
  ahead : ∀ s ∈ ticks, Ahead zeroForOne current (tickToSqrtPrice s.tick)

/-- Past its first tick, the rest of a ladder lies ahead of that tick's price, if the lowest price
met so far is positive. -/
theorem Rungs.tail {s : TickState} {ticks : List TickState} {k : ℤ} {current : ℕ}
    (h : Rungs (s :: ticks) zeroForOne k current p)
    (hpos : 0 < min current (tickToSqrtPrice s.tick)) :
    Rungs ticks zeroForOne s.tick (tickToSqrtPrice s.tick) p := by
  refine ⟨h.ladder.tail, fun s' hs' => h.prices s' (by simp [hs']), fun s' hs' => ?_⟩
  have hahead : AheadOf zeroForOne s.tick s'.tick :=
    (List.pairwise_cons.mp h.ladder.sorted).1 _ (List.mem_map_of_mem hs')
  have hcur := h.ahead s' (by simp [hs'])
  cases zeroForOne <;>
    simp only [AheadOf, Ahead, if_true, Bool.false_eq_true, if_false] at hahead hcur ⊢
  · exact tickToSqrtPrice_lt hahead (by omega)
  · exact tickToSqrtPrice_lt hahead (by omega)

section Round

variable {st st' : SwapState} {s : TickState} {ticks : List TickState} {current : ℕ}

/-- A round heads for the first tick of the ladder. -/
theorem Rungs.target (hr : Rungs (s :: ticks) zeroForOne st.currentTick current p)
    (hp : TicksAgree p) (hs : 0 < p.tickSpacing)
    (hwf : ∀ i q, p.positions.get? i = some q → q.Wf p.tickSpacing)
    {next : ℤ} {initialized : Bool} {target : ℕ}
    (hfound : findTarget p zeroForOne (noLimit zeroForOne) st = .ok (next, initialized, target)) :
    next = s.tick ∧ initialized = true ∧ target = tickToSqrtPrice s.tick := by
  simp only [findTarget, bind_eq_ok, pure_eq_ok, Prod.exists, Prod.mk.injEq] at hfound
  obtain ⟨start, hstart, _, _, hfound, rfl, rfl, rfl⟩ := hfound
  obtain ⟨rfl, rfl⟩ := hr.ladder.found hp hs hwf hstart hfound
  have hvalid := hp.initialised_valid hwf ((hr.ladder.mem s.tick).mp (by simp)).1
  exact ⟨rfl, rfl, swapTarget_noLimit hvalid.2.1⟩

/-- A round that the input carries to the first tick of the ladder: it ends there with the input,
or goes on from there if the tick carries no net liquidity. -/
theorem Rungs.wholeRound (hr : Rungs (s :: ticks) zeroForOne st.currentTick current p)
    (hp : TicksAgree p) (hs : 0 < p.tickSpacing)
    (hwf : ∀ i q, p.positions.get? i = some q → q.Wf p.tickSpacing)
    (hticks : Agrees st.ticks p.bitmap p.tickSpacing (startingAt p.positions)
      (endingAt p.positions))
    (hl : 0 < st.liquidity ∧ st.liquidity < 2 ^ 128) (hpos : 0 < tickToSqrtPrice s.tick)
    (hle : amountConsumed zeroForOne st.sqrtPrice (tickToSqrtPrice s.tick) st.liquidity
      ≤ st.amountRemaining) {goesOn : Bool}
    (h : Round p zeroForOne (noLimit zeroForOne) st st' goesOn) :
    st'.amountOut = st.amountOut
        + amountPaid zeroForOne st.sqrtPrice (tickToSqrtPrice s.tick) st.liquidity ∧
      st'.amountRemaining = st.amountRemaining
        - amountConsumed zeroForOne st.sqrtPrice (tickToSqrtPrice s.tick) st.liquidity ∧
      (st'.amountRemaining = 0 ∧ goesOn = false ∨
        st'.amountRemaining ≠ 0 ∧ st'.sqrtPrice = tickToSqrtPrice s.tick ∧
        st'.currentTick = s.tick ∧
        Agrees st'.ticks p.bitmap p.tickSpacing (startingAt p.positions)
          (endingAt p.positions) ∧
        (netAt p s.tick = 0 → st'.liquidity = st.liquidity ∧ goesOn = true)) := by
  have hinit : Initialised p s.tick := ((hr.ladder.mem s.tick).mp (by simp)).1
  have hmax : tickToSqrtPrice s.tick < u128Max :=
    tickToSqrtPrice_lt_max (hp.initialised_valid hwf hinit).2.1
  cases h with
  | stop hfound move stops =>
    obtain ⟨-, rfl, rfl⟩ := hr.target hp hs hwf hfound
    obtain ⟨-, -, d0, d1, -, rfl⟩ := fullMove_eq_ok.mp move
    rcases stops with hrem | hlimit | hnot
    · exact ⟨rfl, rfl, .inl ⟨hrem, rfl⟩⟩
    · exact absurd hlimit (not_atLimit_noLimit hpos hmax)
    · cases hnot
  | cross hfound move spare _ crossing =>
    obtain ⟨rfl, -, rfl⟩ := hr.target hp hs hwf hfound
    obtain ⟨-, -, d0, d1, -, rfl⟩ := fullMove_eq_ok.mp move
    rw [crossNext_eq_ok crossing]
    refine ⟨rfl, rfl, .inr ⟨spare, rfl, rfl, ?_, fun hnet => ?_⟩⟩
    · exact hticks.crossTick (hp.initialised_iff.mp hinit) _ _
    · have hread : (readTick st.ticks s.tick).liquidityNet = 0 := by
        rw [hticks.net, ← netAt_eq hp, hnet]
      have hsat : satAdd 128 st.liquidity 0 = st.liquidity := by simp only [satAdd]; omega
      cases zeroForOne <;> simp [hread, satSub, hsat, hl.1.ne']
  | within hfound short _ =>
    obtain ⟨-, -, rfl⟩ := hr.target hp hs hwf hfound
    omega

end Round

/-- **The two loops.** Let the client and the pool stand at the same price with the same input
left and the same output so far. If their whole segments agree, they end with the same output
exactly if the share of the last segment does. -/
theorem loops_agree (hp : TicksAgree p) (hs : 0 < p.tickSpacing)
    (hwf : ∀ i q, p.positions.get? i = some q → q.Wf p.tickSpacing) {rounds : ℕ}
    {st final : SwapState} {ticks : List TickState} {q : QuoteState}
    (hr : Rungs ticks zeroForOne st.currentTick st.sqrtPrice p)
    (hticks : Agrees st.ticks p.bitmap p.tickSpacing (startingAt p.positions)
      (endingAt p.positions))
    (hl : 0 < st.liquidity ∧ st.liquidity < 2 ^ 128) (hrem : 0 < st.amountRemaining)
    (hswap : swapLoop p zeroForOne (noLimit zeroForOne) rounds st = .ok final)
    (hquote : quoteLoop st.liquidity zeroForOne ticks
      ⟨st.amountRemaining, st.amountOut, st.sqrtPrice⟩ = .ok q)
    (hdone : q.remainingIn ≤ 0)
    (hsame : Mirrored (fun _ _ _ => True) p zeroForOne st.liquidity st.sqrtPrice
      st.amountRemaining (ticks.map TickState.tick)) :
    q.totalOut = final.amountOut ↔
      Mirrored (ShareAgrees zeroForOne st.liquidity) p zeroForOne st.liquidity st.sqrtPrice
        st.amountRemaining (ticks.map TickState.tick) := by
  induction ticks generalizing rounds st with
  | nil =>
    simp only [quoteLoop, pure_eq_ok] at hquote
    subst hquote
    simp only at hdone
    omega
  | cons s ticks ih =>
    -- the client's step
    have hahead := hr.ahead s (by simp)
    have hread : readBigInt s.sqrtPriceX96 = .ok (tickToSqrtPrice s.tick : ℤ) := by
      simp only [readBigInt, hr.prices s (by simp), getOr_eq_ok]
    rw [quoteLoop, if_neg (by simp only; omega), hread, ok_bind, bind_eq_ok] at hquote
    obtain ⟨step, hclient, hquote⟩ := hquote
    obtain ⟨hpos, rfl⟩ := (computeSwapStep_eq hahead).mp hclient
    -- the pool's round
    obtain ⟨left, st', goesOn, rfl, hstep, hswap⟩ := swapLoop_round hrem.ne' hswap
    simp only [List.map_cons, Mirrored] at hsame ⊢
    split_ifs at hsame ⊢ with hle
    · -- both reach the tick
      obtain ⟨hin, hout, hend⟩ := hsame
      obtain ⟨hpaid, hleft, hends⟩ := hr.wholeRound hp hs hwf hticks hl (by omega)
        (hin ▸ hle) (swapStep_cases hstep)
      rw [if_pos hle] at hquote
      simp only [if_true] at hquote
      rw [hin] at hleft
      rw [hout] at hpaid
      rcases hends with ⟨hzero, rfl⟩ | ⟨hspare, hprice, htick, hagree, hflat⟩
      · -- and end there
        obtain rfl : final = st' := hswap
        rw [quoteLoop_done (by simp only; omega)] at hquote
        cases hquote
        have hend : st.amountRemaining
            = segmentIn zeroForOne st.liquidity st.sqrtPrice (tickToSqrtPrice s.tick) := by omega
        simp [hin, hout, hend, hpaid]
      · -- and go on from it
        obtain ⟨hnet, hrest⟩ := hend.resolve_left (by omega)
        obtain ⟨hliq, rfl⟩ := hflat hnet
        have htail := hr.tail hpos
        rw [← hprice, ← htick] at htail
        rw [← hleft, ← hprice, ← hliq] at hrest
        have hgo := ih htail hagree (by rw [hliq]; exact hl) (Nat.pos_of_ne_zero hspare) hswap
          (by rw [hliq, hleft, hpaid, hprice]; push_cast [hle]; exact hquote) hrest
        rw [hgo, hliq, hprice, hleft]
        have hmore : st.amountRemaining
            ≠ segmentIn zeroForOne st.liquidity st.sqrtPrice (tickToSqrtPrice s.tick) := by omega
        simp [hin, hout, hmore, hnet]
    · -- both stop before it
      obtain ⟨next, initialized, target, hfound⟩ := swapStep_found hstep
      obtain ⟨rfl, rfl, rfl⟩ := hr.target hp hs hwf hfound
      obtain ⟨hpaid, rfl⟩ := swapStep_inside hl.1.ne' hfound hsame.1 hstep
      obtain rfl : final = st' := hswap
      rw [if_neg hle] at hquote
      simp only [Bool.false_eq_true, if_false, pure_eq_ok] at hquote
      subst hquote
      simp only [hpaid, paidInside, ShareAgrees, hsame.1, true_and]
      omega

/-! ### The whole quote -/

/-- The parameters of a quote describe the pool and a swap of it: the pool's own price, liquidity
and fee tier, and every initialised tick beyond the price with its own price. -/
structure Quotes (d : LocalSwapQuoteParams) (p : Pool) (zeroForOne : Bool) (amountIn : ℕ) :
    Prop where
  side : direction d.poolState d.tokenIn = .ok zeroForOne
  amount : toBigIntAmount d.amountIn = amountIn
  price : Js.bigInt d.poolState.sqrtPriceX96 = some (p.sqrtPriceX96 : ℤ)
  liquidity : Js.bigInt d.poolState.liquidity = some (p.liquidity : ℤ)
  feeTier : d.poolState.feeTier = some (p.feeTier : ℚ)
  once : ((d.poolState.ticks.getD []).map TickState.tick).Nodup
  ticks : ∀ t, t ∈ (d.poolState.ticks.getD []).map TickState.tick ↔
    Initialised p t ∧ Ahead zeroForOne p.sqrtPriceX96 (tickToSqrtPrice t)
  prices : ∀ s ∈ d.poolState.ticks.getD [],
    Js.bigInt s.sqrtPriceX96 = some (tickToSqrtPrice s.tick : ℤ)

/-- The ladder as the client walks it. -/
def LocalSwapQuoteParams.ladder (d : LocalSwapQuoteParams) (zeroForOne : Bool) : List ℤ :=
  (sortTicks zeroForOne (d.poolState.ticks.getD [])).map TickState.tick

/-- Seen from the pool's tick, the same initialised ticks lie ahead as seen from its price. -/
def Sighted (p : Pool) (zeroForOne : Bool) : Prop :=
  ∀ t, Initialised p t →
    (Ahead zeroForOne p.sqrtPriceX96 (tickToSqrtPrice t) ↔ AheadOf zeroForOne p.currentTick t)

theorem sortTicks_pairwise {ticks : List TickState} (h : (ticks.map TickState.tick).Nodup) :
    ((sortTicks zeroForOne ticks).map TickState.tick).Pairwise (AheadOf zeroForOne) := by
  have hnodup : ((sortTicks zeroForOne ticks).map TickState.tick).Nodup :=
    (((List.perm_insertionSort _ ticks).map _).nodup_iff).mpr h
  have hsorted : (sortTicks zeroForOne ticks).Pairwise (InOrder zeroForOne) := by
    have htotal : Std.Total (InOrder zeroForOne) :=
      ⟨fun a b => by cases zeroForOne <;> simp only [InOrder] <;> simp <;> omega⟩
    have htrans : IsTrans TickState (InOrder zeroForOne) :=
      ⟨fun a b c => by cases zeroForOne <;> simp only [InOrder] <;> simp <;> omega⟩
    exact List.pairwise_insertionSort _ ticks
  rw [List.Nodup, List.pairwise_map] at hnodup
  refine List.pairwise_map.mpr ((hsorted.and hnodup).imp ?_)
  rintro a b ⟨hle, hne⟩
  cases zeroForOne <;>
    simp only [AheadOf, InOrder, if_true, Bool.false_eq_true, if_false] at hle ⊢ <;> omega

/-- The sorted ticks of such a quote are the ladder the pool climbs. -/
theorem Quotes.rungs {d : LocalSwapQuoteParams} {amountIn : ℕ} (h : Quotes d p zeroForOne amountIn)
    (hsight : Sighted p zeroForOne) :
    Rungs (sortTicks zeroForOne (d.poolState.ticks.getD [])) zeroForOne p.currentTick
      p.sqrtPriceX96 p := by
  refine ⟨⟨sortTicks_pairwise h.once, fun t => ?_⟩, fun s hs => h.prices s (mem_sortTicks.mp hs),
    fun s hs => ((h.ticks s.tick).mp (List.mem_map_of_mem (mem_sortTicks.mp hs))).2⟩
  have hsame : t ∈ (sortTicks zeroForOne (d.poolState.ticks.getD [])).map TickState.tick ↔
      t ∈ (d.poolState.ticks.getD []).map TickState.tick := by simp [mem_sortTicks]
  rw [hsame, h.ticks]
  exact and_congr_right fun hinit => hsight t hinit

/-- What a quote of a pool's swap has computed when it is returned. -/
theorem Quotes.computed {lessSlippage : ℚ → ℚ} {d : LocalSwapQuoteParams} {amountIn : ℕ}
    {quote : LocalSwapQuote} (h : Quotes d p zeroForOne amountIn) (hfee : p.feeTier ≤ feeDenominator)
    (hquote : getSwapQuote lessSlippage d = .ok quote) :
    ∃ final, quoteLoop p.liquidity zeroForOne (sortTicks zeroForOne (d.poolState.ticks.getD []))
        ⟨afterFee p amountIn, 0, p.sqrtPriceX96⟩ = .ok final ∧
      final.remainingIn ≤ 0 ∧ 0 < final.totalOut ∧
      quote.amountOut = toString final.totalOut := by
  have hprice : readBigInt d.poolState.sqrtPriceX96 = .ok (p.sqrtPriceX96 : ℤ) := by
    simp only [readBigInt, h.price, getOr_eq_ok]
  have hliq : readBigInt d.poolState.liquidity = .ok (p.liquidity : ℤ) := by
    simp only [readBigInt, h.liquidity, getOr_eq_ok]
  simp only [getSwapQuote, bind_eq_ok, require_eq_ok, exists_const, h.side, hprice, hliq, h.amount,
    ok_bind, pure_eq_ok] at hquote
  obtain ⟨slippage, -, feeTier, hfeeTier, -, -, fee, hfeeAmount, final, hloop, hdone, hpos, kept,
    -, -, -, rfl⟩ := hquote
  refine ⟨final, ?_, hdone, hpos, rfl⟩
  have htier : feeTier = (p.feeTier : ℤ) := by
    simp only [validateFeeTier, h.feeTier, bind_eq_ok, getOr_eq_ok, require_eq_ok, exists_const,
      pure_eq_ok, Option.some.injEq, exists_eq_left'] at hfeeTier
    rw [← hfeeTier.2, Rat.num_natCast]
  have hfeeValue : fee = ((amountIn * p.feeTier / feeDenominator : ℕ) : ℤ) := by
    rw [htier, ← Nat.cast_mul,
      show (1000000 : ℤ) = (feeDenominator : ℕ) from rfl, bigDiv_natCast (by decide)] at hfeeAmount
    exact (Except.ok.inj hfeeAmount).symm
  have hle : amountIn * p.feeTier / feeDenominator ≤ amountIn :=
    Nat.div_le_of_le_mul (by rw [mul_comm]; exact Nat.mul_le_mul_right _ hfee)
  rw [← hloop, hfeeValue, afterFee, Nat.cast_sub hle]

/-- All whole segments of a swap agree and so does its last share. -/
def Mirrors (p : Pool) (zeroForOne : Bool) (amountIn : ℕ) (ladder : List ℤ) : Prop :=
  Mirrored (ShareAgrees zeroForOne p.liquidity) p zeroForOne p.liquidity p.sqrtPriceX96
    (afterFee p amountIn) ladder

/-- All whole segments of a swap agree, and on the last both sides stop. -/
def MirrorsWhole (p : Pool) (zeroForOne : Bool) (amountIn : ℕ) (ladder : List ℤ) : Prop :=
  Mirrored (fun _ _ _ => True) p zeroForOne p.liquidity p.sqrtPriceX96 (afterFee p amountIn) ladder

instance (p : Pool) (zeroForOne : Bool) (amountIn : ℕ) (ladder : List ℤ) :
    Decidable (Mirrors p zeroForOne amountIn ladder) :=
  decidableMirrored _ _ _ _ _ _ _

/-- **When a quote is what the pool pays.** It is where every segment on the way agrees; and where
all whole segments agree, only if the share of the last one does. -/
theorem quote_mirrors_swap {w w' : World} (hw : Reachable w) {sender : Address}
    {zeroForOne : Bool} {amountIn limit : ℕ} {delta0 delta1 : ℤ} {outcome : SwapOutcome}
    (hswap : swap w sender zeroForOne amountIn limit = .ok (w', delta0, delta1, outcome))
    (hlimit : computeSwap w.pool zeroForOne amountIn limit
      = computeSwap w.pool zeroForOne amountIn (noLimit zeroForOne))
    {lessSlippage : ℚ → ℚ} {d : LocalSwapQuoteParams} {quote : LocalSwapQuote}
    (hd : Quotes d w.pool zeroForOne amountIn) (hquote : getSwapQuote lessSlippage d = .ok quote) :
    (Sighted w.pool zeroForOne ∧ Mirrors w.pool zeroForOne amountIn (d.ladder zeroForOne) →
      quote.amountOut = toString (outcome.final.amountOut : ℤ)) ∧
    (Sighted w.pool zeroForOne ∧ MirrorsWhole w.pool zeroForOne amountIn (d.ladder zeroForOne) →
      quote.amountOut = toString (outcome.final.amountOut : ℤ) →
      Mirrors w.pool zeroForOne amountIn (d.ladder zeroForOne)) := by
  have hcomputed := (swap_eq_ok.mp hswap).1.computed
  rw [hlimit] at hcomputed
  obtain ⟨net, hnet, hnet0, hl0, hloop, -⟩ := computeSwap_eq_ok.mp hcomputed
  obtain rfl := netInput_eq hnet
  have hfee : w.pool.feeTier ≤ feeDenominator := by
    have := hw.wf.feeTier
    simp only [feeDenominator]
    omega
  obtain ⟨final, hclient, hdone, hpos, hout⟩ := hd.computed hfee hquote
  obtain ⟨out, hnat⟩ := Int.eq_ofNat_of_zero_le hpos.le
  have hagree : Sighted w.pool zeroForOne →
      MirrorsWhole w.pool zeroForOne amountIn (d.ladder zeroForOne) →
      (quote.amountOut = toString (outcome.final.amountOut : ℤ) ↔
        Mirrors w.pool zeroForOne amountIn (d.ladder zeroForOne)) := by
    intro hsight hwhole
    have hstart : Rungs (sortTicks zeroForOne (d.poolState.ticks.getD [])) zeroForOne
        (swapStart w.pool (afterFee w.pool amountIn)).currentTick
        (swapStart w.pool (afterFee w.pool amountIn)).sqrtPrice w.pool := hd.rungs hsight
    have hloops := loops_agree hw.ticksAgree hw.wf.spacing_pos hw.wf.positions hstart
      hw.ticksAgree ⟨Nat.pos_of_ne_zero hl0, hw.liquidity_lt⟩ (Nat.pos_of_ne_zero hnet0) hloop
      hclient hdone hwhole
    rw [hout, hnat, Js.toString_natCast_inj]
    rw [hnat, Nat.cast_inj] at hloops
    exact hloops
  exact ⟨fun ⟨hsight, hmirror⟩ => (hagree hsight (hmirror.mono fun _ _ _ _ => trivial)).mpr hmirror,
    fun ⟨hsight, hwhole⟩ heq => (hagree hsight hwhole).mp heq⟩

/-- Parameters for a swap of 4 of token 1. -/
def acrossTick : LocalSwapQuoteParams where
  poolState :=
    { token0 := "A"
      token1 := "B"
      sqrtPriceX96 := "78752793539178751567982686634"
      liquidity := "1000"
      feeTier := some 3000
      ticks := some [⟨0, "79228162514264337593543950336"⟩, ⟨-60, "78990478026721544580763318485"⟩] }
  tokenIn := "B"
  amountIn := .text "4"
  slippage := some 50

/-- What holds at the ends of all ranges holds at every initialised tick. -/
theorem sighted_of_boundaries (hp : TicksAgree p)
    (hwf : ∀ i q, p.positions.get? i = some q → q.Wf p.tickSpacing)
    (h : ∀ t ∈ boundaries p, Ahead zeroForOne p.sqrtPriceX96 (tickToSqrtPrice t) ↔
      AheadOf zeroForOne p.currentTick t) : Sighted p zeroForOne :=
  fun t ht => h t (hp.mem_boundaries hwf ht)

/-- To compare a list with the initialised ticks beyond the price, look at the list and at the ends
of all ranges. -/
theorem listed_of_boundaries (hp : TicksAgree p)
    (hwf : ∀ i q, p.positions.get? i = some q → q.Wf p.tickSpacing) {ts : List ℤ}
    (h : ∀ t ∈ ts ++ boundaries p, t ∈ ts ↔
      Initialised p t ∧ Ahead zeroForOne p.sqrtPriceX96 (tickToSqrtPrice t)) (t : ℤ) :
    t ∈ ts ↔ Initialised p t ∧ Ahead zeroForOne p.sqrtPriceX96 (tickToSqrtPrice t) := by
  constructor
  · intro ht
    exact (h t (by simp [ht])).mp ht
  · intro ht
    exact (h t (by simp [hp.mem_boundaries hwf ht.1])).mpr ht

/-- Two ranges of the same liquidity meet at tick -60; a swap upwards crosses it and is quoted
right. -/
theorem quote_mirrors_across_tick :
    ∃ w w' delta0 delta1 outcome quote, Reachable w ∧
      swap w ⟨9⟩ false 4 (noLimit false) = .ok (w', delta0, delta1, outcome) ∧
      outcome.final.ticksCrossed = 1 ∧
      getSwapQuote (fun x => 10000 - x) acrossTick = .ok quote ∧
      quote.amountOut = toString (outcome.final.amountOut : ℤ) := by
  obtain ⟨w, hr, hprice, hliq, hfee, hlisted, hsight, hmirrors, hswap⟩ :=
    exists_reachable 3000 78752793539178751567982686634
      [.addLiquidity ⟨7⟩ (-120) (-60) 1000, .addLiquidity ⟨7⟩ (-60) 0 1000]
      (fun w => w.pool.sqrtPriceX96 = 78752793539178751567982686634 ∧ w.pool.liquidity = 1000 ∧
        w.pool.feeTier = 3000 ∧
        (∀ t ∈ [0, -60] ++ boundaries w.pool, t ∈ [0, -60] ↔ Initialised w.pool t ∧
          Ahead false w.pool.sqrtPriceX96 (tickToSqrtPrice t)) ∧
        (∀ t ∈ boundaries w.pool, Ahead false w.pool.sqrtPriceX96 (tickToSqrtPrice t) ↔
          AheadOf false w.pool.currentTick t) ∧
        Mirrors w.pool false 4 (acrossTick.ladder false) ∧
        Yields (swap w ⟨9⟩ false 4 (noLimit false)) fun x => x.2.2.2.final.ticksCrossed = 1)
      (by decide)
  obtain ⟨⟨w', delta0, delta1, outcome⟩, hswap, hcrossed⟩ := yields_iff.mp hswap
  obtain ⟨quote, hquote, -⟩ := yields_iff.mp
    (by decide +kernel : Yields (getSwapQuote (fun x => 10000 - x) acrossTick) fun _ => True)
  have hd : Quotes acrossTick w.pool false 4 := by
    refine ⟨rfl, rfl, ?_, ?_, ?_, by decide,
      listed_of_boundaries hr.ticksAgree hr.wf.positions hlisted, by decide⟩
    · rw [hprice]; decide
    · rw [hliq]; decide
    · rw [hfee]; rfl
  have hsighted := sighted_of_boundaries hr.ticksAgree hr.wf.positions hsight
  exact ⟨w, w', delta0, delta1, outcome, quote, hr, hswap, hcrossed, hquote,
    (quote_mirrors_swap hr hswap rfl hd hquote).1 ⟨hsighted, hmirrors⟩⟩

/-- Parameters for a swap of 10000 of token 0. -/
def insideRange : LocalSwapQuoteParams where
  poolState :=
    { token0 := "A"
      token1 := "B"
      sqrtPriceX96 := "79228162514264337593543950336"
      liquidity := "1000000"
      feeTier := some 3000
      ticks := some [⟨-600, "76851317638836407465737631826"⟩] }
  tokenIn := "A"
  amountIn := .text "10000"
  slippage := some 50

/-- **A quote the pool does not pay.** The client quotes 10278 for a swap that stays inside a
range, its share of the whole segment; the pool pays 9871. -/
theorem quote_exceeds_swap :
    ∃ w w' delta0 delta1 outcome quote, Reachable w ∧
      swap w ⟨9⟩ true 10000 (noLimit true) = .ok (w', delta0, delta1, outcome) ∧
      Quotes insideRange w.pool true 10000 ∧
      getSwapQuote (fun x => 10000 - x) insideRange = .ok quote ∧
      ¬ quote.amountOut = toString (outcome.final.amountOut : ℤ) := by
  obtain ⟨w, hr, hprice, hliq, hfee, hlisted, hswap⟩ :=
    exists_reachable 3000 unitPrice [.addLiquidity ⟨7⟩ (-600) 600 1000000]
      (fun w => w.pool.sqrtPriceX96 = 79228162514264337593543950336 ∧
        w.pool.liquidity = 1000000 ∧ w.pool.feeTier = 3000 ∧
        (∀ t ∈ [-600] ++ boundaries w.pool, t ∈ [-600] ↔ Initialised w.pool t ∧
          Ahead true w.pool.sqrtPriceX96 (tickToSqrtPrice t)) ∧
        Yields (swap w ⟨9⟩ true 10000 (noLimit true)) fun x => x.2.2.2.final.amountOut = 9871)
      (by decide +kernel)
  obtain ⟨⟨w', delta0, delta1, outcome⟩, hswap, hout⟩ := yields_iff.mp hswap
  obtain ⟨quote, hquote, hquoted⟩ := yields_iff.mp
    (by decide +kernel :
      Yields (getSwapQuote (fun x => 10000 - x) insideRange) fun q => q.amountOut = "10278")
  refine ⟨w, w', delta0, delta1, outcome, quote, hr, hswap, ?_, hquote, ?_⟩
  · refine ⟨rfl, rfl, ?_, ?_, ?_, by decide,
      listed_of_boundaries hr.ticksAgree hr.wf.positions hlisted, by decide⟩
    · rw [hprice]; decide
    · rw [hliq]; decide
    · rw [hfee]; rfl
  · rw [hout, hquoted]
    decide

end Swyft.Sdk
