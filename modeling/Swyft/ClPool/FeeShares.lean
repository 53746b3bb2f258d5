import Swyft.ClPool.FeeGrowth
import Swyft.ClPool.TickAgreement
import Swyft.Lib.Accrual

/-!
# Who shares in the fees

A swap adds to a global growth, per unit of the liquidity its loop holds. `collect` pays a position
for all the global growth since its snapshot, wherever the price was while it grew. The fees add up
only if the growth a position is paid for went by while the position was in range, and only if the
loop held at least the liquidity of the positions that will be paid for it.

An audit carries along, for each token and position, whether all growth since the position's
snapshot went by in its range. `FairCall` asks two things of the calls of a run:

* a `collect` either has nothing to pay, or is of a position in range that the audit vouches for;
* a round of a swap that adds growth holds at least the liquidity of the vouched positions it is
  in range of.

## Main definitions

* `Audit` — a world with, for each token and position, whether its pending growth is its own
* `FairRun` — a run whose calls are all fair
* `feesPaidTo`, `feesRetained` — the two sides of the account
* `roundInput`, `roundGrowth` — what a round of a swap takes in, and the growth it adds

## Main results

* `swapStep_accounts` — the growth of a round is covered by the fee on what it takes in
* `FairRun.feesPaidTo_le` — the account along a fair run, for any set of new positions
-/

namespace Swyft.ClPool

open Checked

/-! ### The audit -/

/-- The token a swap takes in. -/
def inputAsset (zeroForOne : Bool) : Asset := if zeroForOne then .zero else .one

/-- The component of a pair of amounts that is in a token. -/
def Asset.pick : Asset → ℕ → ℕ → ℕ
  | .zero, amount0, _ => amount0
  | .one, _, amount1 => amount1

/-- The growth the loop has collected for a token. -/
def SwapState.delta (st : SwapState) (k : Asset) : ℕ :=
  k.pick st.feeGrowthDelta0 st.feeGrowthDelta1

/-- The tick `v` is in the position's range. -/
def Position.holds (q : Position) (v : ℤ) : Prop := q.tickLower ≤ v ∧ v < q.tickUpper

/-- The loop states from which the rounds of `swap` start. -/
def swapRounds (p : Pool) (zeroForOne : Bool) (amountIn limit : ℕ) : List SwapState :=
  match netInput p amountIn with
  | .ok net => visited p zeroForOne limit maxSwapIterations (swapStart p net)
  | .error _ => []

/-- What a round takes in: the amount of its full move, or all that is left if that is less. -/
def roundInput (p : Pool) (zeroForOne : Bool) (limit : ℕ) (st : SwapState) : ℕ :=
  match findTarget p zeroForOne limit st with
  | .ok (_, _, target) =>
    min (amountConsumed zeroForOne st.sqrtPrice target st.liquidity) st.amountRemaining
  | .error _ => 0

/-- The growth of the input token that a round adds. -/
def roundGrowth (p : Pool) (zeroForOne : Bool) (limit : ℕ) (st : SwapState) : ℕ :=
  match swapStep p zeroForOne limit st with
  | .ok (st', _) => st'.delta (inputAsset zeroForOne) - st.delta (inputAsset zeroForOne)
  | .error _ => 0

/-- The pool's world, and for each token and position whether all growth of the token since the
position's snapshot went by in the position's range. -/
structure Audit where
  world : World
  earned : Asset → ℕ → Bool

namespace Audit

/-- The snapshot under `i` is at the global growth. -/
def UpToDate (p : Pool) (k : Asset) (i : ℕ) : Prop :=
  ∀ q ∈ p.positions.get? i, q.last k = p.growth k

/-- Whatever growth of `k` a swap adds, it adds in the range of the position under `i`. -/
def SharesInSwap (p : Pool) (zeroForOne : Bool) (amountIn limit : ℕ) (k : Asset) (i : ℕ) : Prop :=
  k = inputAsset zeroForOne → ∀ q ∈ p.positions.get? i,
    ∀ st ∈ swapRounds p zeroForOne amountIn limit, 0 < roundGrowth p zeroForOne limit st →
      q.holds (segmentTick zeroForOne st)

instance (q : Position) (v : ℤ) : Decidable (q.holds v) := inferInstanceAs (Decidable (_ ∧ _))

instance (p : Pool) (k : Asset) (i : ℕ) : Decidable (UpToDate p k i) :=
  inferInstanceAs (Decidable (∀ q ∈ p.positions.get? i, _))

instance (p : Pool) (zeroForOne : Bool) (amountIn limit : ℕ) (k : Asset) (i : ℕ) :
    Decidable (SharesInSwap p zeroForOne amountIn limit k i) :=
  inferInstanceAs (Decidable (_ → ∀ q ∈ p.positions.get? i, ∀ st ∈ swapRounds _ _ _ _, _))

/-- A swap goes on vouching for the positions in range of all the growth it adds. -/
def earnedAfterSwap (a : Audit) (zeroForOne : Bool) (amountIn limit : ℕ) (k : Asset) (i : ℕ) :
    Bool :=
  a.earned k i && decide (SharesInSwap a.world.pool zeroForOne amountIn limit k i)

/-- A snapshot taken now is vouched for if it is at the global growth. -/
def earnedAfter (a : Audit) (w' : World) : Call → Asset → ℕ → Bool
  | .addLiquidity _ _ _ _, k, i =>
    if i = a.world.pool.positions.next then decide (UpToDate w'.pool k i) else a.earned k i
  | .collect _ id, k, i => if i = id then decide (UpToDate w'.pool k i) else a.earned k i
  | .swap _ zeroForOne amountIn limit, k, i => a.earnedAfterSwap zeroForOne amountIn limit k i
  | _, k, i => a.earned k i

/-- One invocation, audited. -/
def exec (a : Audit) (c : Call) : Res (Audit × Receipt) := do
  let (w', r) ← ClPool.exec a.world c
  pure (⟨w', a.earnedAfter w' c⟩, r)

/-- The audit of a pool without positions. -/
def start (w : World) : Audit := ⟨w, fun _ _ => false⟩

/-- The liquidity that has earned its growth of `k` so far and is in range at `v`. -/
def earningAt (a : Audit) (k : Asset) (v : ℤ) : ℕ :=
  a.world.pool.positions.sumBy fun i q => if a.earned k i ∧ q.holds v then q.liquidity else 0

end Audit

/-! ### Fair runs -/

/-- A `collect` with nothing to pay, or of a position in range that earned what is pending. -/
def FairCollect (a : Audit) (id : ℕ) : Prop :=
  ∀ q ∈ a.world.pool.positions.get? id, ∀ k,
    a.world.pool.inside k q = q.last k ∨ (a.world.pool.inRange q ∧ a.earned k id = true)

/-- Every round that adds growth holds the liquidity that earns it. -/
def FairSwap (a : Audit) (zeroForOne : Bool) (amountIn limit : ℕ) : Prop :=
  ∀ st ∈ swapRounds a.world.pool zeroForOne amountIn limit,
    0 < roundGrowth a.world.pool zeroForOne limit st →
      a.earningAt (inputAsset zeroForOne) (segmentTick zeroForOne st) ≤ st.liquidity

/-- A call that keeps the fee account. -/
def FairCall (a : Audit) : Call → Prop
  | .collect _ id => FairCollect a id
  | .swap _ zeroForOne amountIn limit => FairSwap a zeroForOne amountIn limit
  | _ => True

/-- A fair invocation. -/
def FairStep (a : Audit) (e : Event) (a' : Audit) : Prop :=
  Fires Audit.exec a e a' ∧ FairCall a e.1

/-- A run all of whose calls are fair. -/
abbrev FairRun := Trace FairStep

instance {P : Asset → Prop} [DecidablePred P] : Decidable (∀ k, P k) :=
  decidable_of_iff (P .zero ∧ P .one)
    ⟨fun h k => match k with | .zero => h.1 | .one => h.2, fun h => ⟨h _, h _⟩⟩

instance (a : Audit) (id : ℕ) : Decidable (FairCollect a id) :=
  inferInstanceAs (Decidable (∀ q ∈ a.world.pool.positions.get? id, _))

instance (a : Audit) (zeroForOne : Bool) (amountIn limit : ℕ) :
    Decidable (FairSwap a zeroForOne amountIn limit) :=
  inferInstanceAs (Decidable (∀ st ∈ swapRounds _ _ _ _, _))

instance (a : Audit) : (c : Call) → Decidable (FairCall a c)
  | .collect _ id => inferInstanceAs (Decidable (FairCollect a id))
  | .swap _ zeroForOne amountIn limit =>
    inferInstanceAs (Decidable (FairSwap a zeroForOne amountIn limit))
  | .addLiquidity .. | .removeLiquidity .. | .transferNft .. | .closeLedger .. =>
    instDecidableTrue

/-! ### The account -/

/-- The fees of token `k` an event paid to the positions in `S`. -/
def feePaidTo (S : ℕ → Prop) [DecidablePred S] (k : Asset) : Event → ℕ
  | (.collect _ id, .collected fee0 fee1) => if S id then k.pick fee0 fee1 else 0
  | _ => 0

/-- The fee in token `k` that an event retained. -/
def feeRetained (k : Asset) : Event → ℕ
  | (.swap _ zeroForOne _ _, .swapped _ _ outcome) =>
    if inputAsset zeroForOne = k then outcome.feeOnTraded else 0
  | _ => 0

def feesPaidTo (S : ℕ → Prop) [DecidablePred S] (k : Asset) (es : List Event) : ℕ :=
  (es.map (feePaidTo S k)).sum

/-- All fees of token `k` paid out by `collect`. -/
def feesPaid (k : Asset) (es : List Event) : ℕ := feesPaidTo (fun _ => True) k es

/-- All fees in token `k` retained by swaps. -/
def feesRetained (k : Asset) (es : List Event) : ℕ := (es.map (feeRetained k)).sum

/-- The positions opened in the course of `es`. -/
def openedIn (es : List Event) : List ℕ :=
  es.filterMap fun e => match e.2 with
    | .added id _ _ => some id
    | _ => none

/-! ### A swap -/

section Loop

variable {p : Pool} {zeroForOne : Bool} {limit : ℕ} {st st' : SwapState} {goesOn : Bool}

/-- What the segment of a round adds to the accumulators. -/
theorem accumulated {d0 d1 amount feeTier liquidity : ℕ}
    (h : accumulateSegmentFee st.feeGrowthDelta0 st.feeGrowthDelta1 zeroForOne amount feeTier
      liquidity = .ok (d0, d1)) :
    ∃ growth, growth * liquidity ≤ amount * feeTier / feeDenominator * Q96 ∧
      ∀ k, Asset.pick k d0 d1 = st.delta k + if k = inputAsset zeroForOne then growth else 0 := by
  obtain ⟨growth, hle, -, rfl, rfl⟩ := accumulateSegmentFee_eq_ok h
  refine ⟨growth, hle, fun k => ?_⟩
  cases k <;> cases zeroForOne <;> rfl

theorem roundInput_of_found {next : ℤ} {initialized : Bool} {target : ℕ}
    (hfound : findTarget p zeroForOne limit st = .ok (next, initialized, target)) :
    roundInput p zeroForOne limit st
      = min (amountConsumed zeroForOne st.sqrtPrice target st.liquidity) st.amountRemaining := by
  simp only [roundInput, hfound]

/-- The growth of a round is what it adds to the accumulator of the input's token. -/
theorem roundGrowth_eq {growth : ℕ}
    (hstep : swapStep p zeroForOne limit st = .ok (st', goesOn))
    (hdelta : ∀ k, st'.delta k = st.delta k + if k = inputAsset zeroForOne then growth else 0) :
    roundGrowth p zeroForOne limit st = growth := by
  have hin := hdelta (inputAsset zeroForOne)
  rw [if_pos rfl] at hin
  rw [roundGrowth, hstep]
  show st'.delta _ - st.delta _ = growth
  rw [hin, Nat.add_sub_cancel_left]

/-- The account of a round. -/
structure RoundAccounts (p : Pool) (zeroForOne : Bool) (limit : ℕ) (st st' : SwapState) :
    Prop where
  taken : st'.amountRemaining + roundInput p zeroForOne limit st = st.amountRemaining
  covered : roundGrowth p zeroForOne limit st * st.liquidity
    ≤ roundInput p zeroForOne limit st * p.feeTier / feeDenominator * Q96
  grown : ∀ k, st'.delta k
    = st.delta k + if k = inputAsset zeroForOne then roundGrowth p zeroForOne limit st else 0

/-- A round takes in its input, and the growth it adds is covered by the fee on that. -/
theorem swapStep_accounts (hstep : swapStep p zeroForOne limit st = .ok (st', goesOn)) :
    RoundAccounts p zeroForOne limit st st' := by
  -- however the round ends, it puts one amount through `accumulate_segment_fee`
  have haccounts : ∀ {d0 d1 amount : ℕ},
      accumulateSegmentFee st.feeGrowthDelta0 st.feeGrowthDelta1 zeroForOne amount p.feeTier
        st.liquidity = .ok (d0, d1) →
      roundInput p zeroForOne limit st = amount →
      st'.amountRemaining + amount = st.amountRemaining →
      (∀ k, st'.delta k = k.pick d0 d1) → RoundAccounts p zeroForOne limit st st' := by
    intro d0 d1 amount hfee hinput htaken hpick
    obtain ⟨growth, hcovered, hgrown⟩ := accumulated hfee
    have hdelta : ∀ k, st'.delta k
        = st.delta k + if k = inputAsset zeroForOne then growth else 0 := fun k => by
      rw [hpick, hgrown]
    have hgrowth := roundGrowth_eq hstep hdelta
    exact ⟨hinput ▸ htaken, by rw [hinput, hgrowth]; exact hcovered, by rw [hgrowth]; exact hdelta⟩
  cases swapStep_cases hstep with
  | stop found move _ =>
    obtain ⟨-, hle, d0, d1, hfee, rfl⟩ := fullMove_eq_ok.mp move
    exact haccounts hfee ((roundInput_of_found found).trans (Nat.min_eq_left hle))
      (Nat.sub_add_cancel hle) fun _ => rfl
  | cross found move _ _ crossing =>
    obtain ⟨-, hle, d0, d1, hfee, rfl⟩ := fullMove_eq_ok.mp move
    have hcrossed := crossNext_eq_ok crossing
    refine haccounts hfee ((roundInput_of_found found).trans (Nat.min_eq_left hle)) ?_
      fun _ => by rw [hcrossed]; rfl
    rw [hcrossed]
    exact Nat.sub_add_cancel hle
  | within found short move =>
    obtain ⟨next, -, -, d0, d1, hfee, rfl⟩ := partialMove_eq_ok.mp move
    exact haccounts hfee ((roundInput_of_found found).trans (Nat.min_eq_right short.le))
      (Nat.zero_add _) fun _ => rfl

/-- The growth so far, owed to `weight`, is covered by the fee on the input consumed so far. -/
structure LoopCovers (p : Pool) (zeroForOne : Bool) (net weight : ℕ) (st : SwapState) : Prop where
  remaining : st.amountRemaining ≤ net
  covers : st.delta (inputAsset zeroForOne) * weight
    ≤ (net - st.amountRemaining) * p.feeTier / feeDenominator * Q96
  other : ∀ k, k ≠ inputAsset zeroForOne → st.delta k = 0

/-- Growth owed to at most the round's liquidity is covered by the fee on what it consumes. -/
theorem LoopCovers.round {net weight : ℕ}
    (hC : 0 < roundGrowth p zeroForOne limit st → weight ≤ st.liquidity)
    (hstep : swapStep p zeroForOne limit st = .ok (st', goesOn))
    (h : LoopCovers p zeroForOne net weight st) : LoopCovers p zeroForOne net weight st' := by
  have hround := swapStep_accounts hstep
  have hamount := hround.taken
  have hin := hround.grown (inputAsset zeroForOne)
  rw [if_pos rfl] at hin
  have hweight : roundGrowth p zeroForOne limit st * weight
      ≤ roundInput p zeroForOne limit st * p.feeTier / feeDenominator * Q96 := by
    rcases Nat.eq_zero_or_pos (roundGrowth p zeroForOne limit st) with h0 | hpos
    · rw [h0, Nat.zero_mul]
      exact Nat.zero_le _
    · exact le_trans (Nat.mul_le_mul_left _ (hC hpos)) hround.covered
  have hremaining := h.remaining
  have hconsumed : net - st'.amountRemaining
      = (net - st.amountRemaining) + roundInput p zeroForOne limit st := by omega
  refine ⟨by omega, ?_, fun k hk => ?_⟩
  · rw [hin, hconsumed, Nat.add_mul, Nat.add_mul]
    calc st.delta (inputAsset zeroForOne) * weight + roundGrowth p zeroForOne limit st * weight
        ≤ (net - st.amountRemaining) * p.feeTier / feeDenominator * Q96
          + roundInput p zeroForOne limit st * p.feeTier / feeDenominator * Q96 :=
          Nat.add_le_add h.covers hweight
      _ = ((net - st.amountRemaining) * p.feeTier / feeDenominator
          + roundInput p zeroForOne limit st * p.feeTier / feeDenominator) * Q96 :=
          (Nat.add_mul _ _ _).symm
      _ ≤ _ := Nat.mul_le_mul_right _ Nat.div_add_div_le_add_div
  · rw [hround.grown, if_neg hk, Nat.add_zero]
    exact h.other k hk

end Loop

/-- **A swap's growth is covered by the fee it retains**, for any weight that no round adding
growth falls short of. -/
theorem Swapped.covered {w w' : World} {sender : Address} {zeroForOne : Bool}
    {amountIn limit weight : ℕ} {outcome : SwapOutcome}
    (h : Swapped w sender zeroForOne amountIn limit w' outcome)
    (hC : ∀ st ∈ swapRounds w.pool zeroForOne amountIn limit,
      0 < roundGrowth w.pool zeroForOne limit st → weight ≤ st.liquidity) :
    ∃ growth, growth * weight ≤ outcome.feeOnTraded * Q96 ∧
      ∀ k, w'.pool.growth k
        = w.pool.growth k + if k = inputAsset zeroForOne then growth else 0 := by
  obtain ⟨net, hnet, -, -, hloop, hle, htraded, hfee, -⟩ := computeSwap_eq_ok.mp h.computed
  obtain ⟨-, hfee⟩ := checkedFee_eq_ok.mp hfee
  simp only [swapRounds, hnet] at hC
  have hstart : LoopCovers w.pool zeroForOne net weight (swapStart w.pool net) := by
    refine ⟨le_rfl, ?_, fun k _ => by cases k <;> rfl⟩
    have h0 : (swapStart w.pool net).delta (inputAsset zeroForOne) = 0 := by
      cases zeroForOne <;> rfl
    rw [h0, Nat.zero_mul]
    exact Nat.zero_le _
  have hfinal := swapLoop_invariant (I := LoopCovers w.pool zeroForOne net weight)
    (fun st st' goesOn hC _ hstep hI => hI.round hC hstep) hC hloop hstart
  refine ⟨outcome.final.delta (inputAsset zeroForOne), ?_, fun k => ?_⟩
  · rw [← hfee, htraded]
    exact hfinal.covers
  · have hgrowth : w'.pool.growth k = w.pool.growth k + outcome.final.delta k := by
      cases k with
      | zero => exact h.growth.1
      | one => exact h.growth.2
    rw [hgrowth]
    split
    case isTrue hk => rw [hk]
    case isFalse hk => rw [hfinal.other k hk]

/-! ### The account along a run -/

/-- The weight of the position under `i` in the account of `S`. -/
def earnedWeight (earned : Asset → ℕ → Bool) (S : ℕ → Prop) [DecidablePred S] (k : Asset) (i : ℕ)
    (q : Position) : ℕ :=
  if S i ∧ earned k i then q.liquidity else 0

/-- What the positions in `S` have earned and not collected, scaled by `Q96`. -/
def Audit.claimable (a : Audit) (S : ℕ → Prop) [DecidablePred S] (k : Asset) : ℕ :=
  Accrual.owed a.world.pool.positions (fun _ q => q.last k) (earnedWeight a.earned S k)
    (a.world.pool.growth k)

theorem fires_iff {a a' : Audit} {e : Event} :
    Fires Audit.exec a e a' ↔
      Step a.world e a'.world ∧ a'.earned = a.earnedAfter a'.world e.1 := by
  obtain ⟨w, earned⟩ := a
  obtain ⟨w', earned'⟩ := a'
  simp only [Fires, Audit.exec, Step, bind_eq_ok, pure_eq_ok, Prod.exists, Prod.mk.injEq,
    Audit.mk.injEq]
  constructor
  · rintro ⟨w₁, r, hexec, ⟨rfl, rfl⟩, rfl⟩
    exact ⟨hexec, rfl⟩
  · rintro ⟨hexec, rfl⟩
    exact ⟨w', e.2, hexec, ⟨rfl, rfl⟩, rfl⟩

section Account

variable {S : ℕ → Prop} [DecidablePred S] {k : Asset} {a : Audit} {w' : World}

theorem Added.claimable {owner : Address} {tickLower tickUpper : ℤ} {liquidity : U128}
    {id amount0 amount1 : ℕ}
    (h : Added a.world owner tickLower tickUpper liquidity w' id amount0 amount1) :
    Audit.claimable ⟨w', a.earnedAfter w' (.addLiquidity owner tickLower tickUpper liquidity)⟩ S k
      = a.claimable S k := by
  have hgrowth : w'.pool.growth k = a.world.pool.growth k := by
    rw [h.world]
    cases k <;> rfl
  have hpos : w'.pool.positions = a.world.pool.positions.push (newPosition a.world.pool owner
      tickLower tickUpper liquidity a.world.nft.positions.next) := by rw [h.world]
  rw [Audit.claimable, Audit.claimable, hgrowth, hpos]
  refine Accrual.owed_open (fun j c hj => ?_) ?_
  · simp only [earnedWeight, Audit.earnedAfter, if_neg hj]
  · -- the audit vouches for the new position only if its snapshot is the global growth
    rw [earnedWeight]
    split
    case isTrue hS =>
      simp only [Audit.earnedAfter, if_pos, decide_eq_true_eq] at hS
      refine .inl ?_
      rw [hS.2 _ (by rw [hpos, IdStore.get?_push, if_pos rfl]; rfl), hgrowth]
    case isFalse => exact .inr rfl

theorem Removed.claimable_le {owner : Address} {id : ℕ} {liquidity : U128} {position : Position}
    {amount0 amount1 : ℕ}
    (h : Removed a.world owner id liquidity position w' amount0 amount1) :
    Audit.claimable ⟨w', a.earnedAfter w' (.removeLiquidity owner id liquidity)⟩ S k
      ≤ a.claimable S k := by
  have hgrowth : w'.pool.growth k = a.world.pool.growth k := by
    rw [h.world]
    cases k <;> rfl
  rw [Audit.claimable, Audit.claimable, hgrowth]
  obtain ⟨-, hpos, -⟩ | ⟨-, hpos, -⟩ := shrinkPosition_cases h.shrunk
  · rw [hpos]
    exact Accrual.owed_close h.found
  · rw [hpos]
    refine Accrual.owed_shrink h.found (shrunk_last _ _ _ k) ?_
    simp only [earnedWeight]
    split
    · exact Nat.sub_le _ _
    · exact le_rfl

/-- A fair `collect` pays for growth the position has earned. -/
theorem Collected.claimable_le {owner : Address} {id fee0 fee1 : ℕ} {position : Position}
    (hw : Wf a.world) (hg : GrowthBounded a.world.pool) (hC : FairCollect a id)
    (h : Collected a.world owner id position w' fee0 fee1) :
    (if S id then k.pick fee0 fee1 else 0) * Q96
        + Audit.claimable ⟨w', a.earnedAfter w' (.collect owner id)⟩ S k
      ≤ a.claimable S k := by
  have hgrowth : w'.pool.growth k = a.world.pool.growth k := by
    rw [h.world]
    cases k <;> rfl
  have hpos : w'.pool.positions = a.world.pool.positions.replace id (position.collected owner
      (a.world.pool.inside0 position) (a.world.pool.inside1 position)) := by rw [h.world]
  have hsettle : Audit.claimable ⟨w', a.earnedAfter w' (.collect owner id)⟩ S k
      + (a.world.pool.growth k - position.last k) * earnedWeight a.earned S k id position
        = a.claimable S k := by
    rw [Audit.claimable, Audit.claimable, hgrowth, hpos]
    refine Accrual.owed_settle h.found (fun j c hj => ?_) ?_
    · simp only [earnedWeight, Audit.earnedAfter, if_neg hj]
    · rw [earnedWeight]
      split
      case isTrue hS =>
        simp only [Audit.earnedAfter, if_pos, decide_eq_true_eq] at hS
        refine .inl ?_
        rw [hS.2 _ (by rw [hpos, IdStore.get?_replace h.found, if_pos rfl]; rfl), hgrowth]
      case isFalse => exact .inr rfl
  have hpaid : (if S id then k.pick fee0 fee1 else 0) * Q96
      ≤ (a.world.pool.growth k - position.last k) * earnedWeight a.earned S k id position := by
    split
    case isFalse => rw [Nat.zero_mul]; exact Nat.zero_le _
    case isTrue hS =>
      obtain ⟨-, h0, h1⟩ := h.fees hw
      have hfee : k.pick fee0 fee1 =
          a.world.pool.pending k position * position.liquidity / Q96 := by
        cases k with
        | zero => exact h0
        | one => exact h1
      rw [hfee]
      rcases hC position h.found k with hsame | ⟨hin, hearned⟩
      · rw [Pool.pending, hsame, wrapSub_self, Nat.zero_mul, Nat.zero_div, Nat.zero_mul]
        exact Nat.zero_le _
      · rw [hg.pending_inRange h.found k hin, earnedWeight, if_pos ⟨hS, hearned⟩]
        exact Nat.div_mul_le_self _ _
  omega

theorem weight_afterSwap_le (a : Audit) (zeroForOne : Bool) (amountIn limit : ℕ) (S : ℕ → Prop)
    [DecidablePred S] (k : Asset) (i : ℕ) (q : Position) :
    earnedWeight (a.earnedAfterSwap zeroForOne amountIn limit) S k i q
      ≤ earnedWeight a.earned S k i q := by
  simp only [earnedWeight, Audit.earnedAfterSwap, Bool.and_eq_true]
  split
  case isTrue h => rw [if_pos ⟨h.1, h.2.1⟩]
  case isFalse => exact Nat.zero_le _

/-- What a swap goes on vouching for was in range of every round that added growth. -/
theorem weight_afterSwap_le_earning (S : ℕ → Prop) [DecidablePred S] {zeroForOne : Bool}
    {amountIn limit : ℕ} {st : SwapState}
    (hst : st ∈ swapRounds a.world.pool zeroForOne amountIn limit)
    (hgrowth : 0 < roundGrowth a.world.pool zeroForOne limit st) :
    a.world.pool.positions.sumBy
        (earnedWeight (a.earnedAfterSwap zeroForOne amountIn limit) S (inputAsset zeroForOne))
      ≤ a.earningAt (inputAsset zeroForOne) (segmentTick zeroForOne st) := by
  refine IdStore.sumBy_le_sumBy fun i q hq => ?_
  simp only [earnedWeight, Audit.earnedAfterSwap, Bool.and_eq_true, decide_eq_true_eq]
  split
  case isTrue h => rw [if_pos ⟨h.2.1, h.2.2 rfl q hq st hst hgrowth⟩]
  case isFalse => exact Nat.zero_le _

/-- A fair swap owes no more than the fee it retains. -/
theorem Swapped.claimable_le {sender : Address} {zeroForOne : Bool} {amountIn limit : U128}
    {outcome : SwapOutcome} (hg : GrowthBounded a.world.pool)
    (hC : FairSwap a zeroForOne amountIn limit)
    (h : Swapped a.world sender zeroForOne amountIn limit w' outcome) :
    Audit.claimable ⟨w', a.earnedAfter w' (.swap sender zeroForOne amountIn limit)⟩ S k
      ≤ a.claimable S k
        + (if inputAsset zeroForOne = k then outcome.feeOnTraded else 0) * Q96 := by
  obtain ⟨growth, hcovered, hgrowth⟩ := h.covered fun st hst hpos =>
    le_trans (weight_afterSwap_le_earning S hst hpos) (hC st hst hpos)
  have hpos : w'.pool.positions = a.world.pool.positions := by
    obtain ⟨_, _, -, -, hpool⟩ := settlePool_eq_ok.mp h.settled
    rw [hpool]
  have hless : Accrual.owed a.world.pool.positions (fun _ q => q.last k)
      (earnedWeight (a.earnedAfterSwap zeroForOne amountIn limit) S k) (a.world.pool.growth k)
        ≤ a.claimable S k :=
    Accrual.owed_le_of_weight_le fun i q _ => weight_afterSwap_le a zeroForOne amountIn limit S k i q
  show Accrual.owed w'.pool.positions (fun _ q => q.last k)
      (earnedWeight (a.earnedAfterSwap zeroForOne amountIn limit) S k) (w'.pool.growth k) ≤ _
  rw [hpos, hgrowth]
  by_cases hk : k = inputAsset zeroForOne
  · subst hk
    rw [if_pos rfl, if_pos rfl, Accrual.owed_grow (hg.last_le _)]
    exact Nat.add_le_add hless hcovered
  · rw [if_neg hk, if_neg (Ne.symm hk), Nat.zero_mul]
    exact hless

/-- **One fair step.** What it pays out was claimable, and what becomes claimable it retained. -/
theorem FairStep.claimable_le {a' : Audit} {e : Event} (hw : Wf a.world)
    (hg : GrowthBounded a.world.pool) (h : FairStep a e a') :
    feePaidTo S k e * Q96 + a'.claimable S k ≤ a.claimable S k + feeRetained k e * Q96 := by
  obtain ⟨w', earned'⟩ := a'
  obtain ⟨hf, hC⟩ := h
  obtain ⟨hs, hearned⟩ := fires_iff.mp hf
  have hs : Step a.world e w' := hs
  have hearned : earned' = a.earnedAfter w' e.1 := hearned
  subst hearned
  cases Step.cases hs with
  | add h =>
    simp only [feePaidTo, feeRetained, Nat.zero_mul, Nat.zero_add, Nat.add_zero]
    exact h.claimable.le
  | remove h =>
    simp only [feePaidTo, feeRetained, Nat.zero_mul, Nat.zero_add, Nat.add_zero]
    exact h.claimable_le
  | swap h =>
    simp only [feePaidTo, feeRetained, Nat.zero_mul, Nat.zero_add]
    exact h.claimable_le hg hC
  | collect h =>
    simp only [feePaidTo, feeRetained, Nat.zero_mul, Nat.add_zero]
    exact h.claimable_le hw hg hC
  | transferNft _ h =>
    simp only [feePaidTo, feeRetained, Nat.zero_mul, Nat.zero_add, Nat.add_zero]
    exact le_rfl
  | closeLedger =>
    simp only [feePaidTo, feeRetained, Nat.zero_mul, Nat.zero_add, Nat.add_zero]
    exact le_rfl

end Account

theorem feesPaidTo_cons (S : ℕ → Prop) [DecidablePred S] (k : Asset) (e : Event)
    (es : List Event) : feesPaidTo S k (e :: es) = feePaidTo S k e + feesPaidTo S k es := rfl

theorem feesRetained_cons (k : Asset) (e : Event) (es : List Event) :
    feesRetained k (e :: es) = feeRetained k e + feesRetained k es := rfl

section Run

variable {a a' : Audit} {es : List Event}

/-- A fair run is a run. -/
theorem FairRun.run (h : FairRun a es a') : Run a.world es a'.world := by
  induction h with
  | nil => exact .nil _
  | cons hstep _ ih => exact .cons (fires_iff.mp hstep.1).1 ih

/-- **The account along a fair run.** -/
theorem FairRun.claimable_le (S : ℕ → Prop) [DecidablePred S] (k : Asset) (hw : Wf a.world)
    (hg : GrowthBounded a.world.pool) (h : FairRun a es a') :
    feesPaidTo S k es * Q96 + a'.claimable S k ≤ a.claimable S k + feesRetained k es * Q96 := by
  induction h with
  | nil =>
    show 0 * Q96 + _ ≤ _ + 0 * Q96
    rw [Nat.zero_mul, Nat.zero_add, Nat.add_zero]
  | cons hstep _ ih =>
    have hs := (fires_iff.mp hstep.1).1
    have hone := hstep.claimable_le (S := S) (k := k) hw hg
    have hrest := ih (hw.step hs) (hg.step hs)
    rw [feesPaidTo_cons, feesRetained_cons, Nat.add_mul, Nat.add_mul]
    omega

/-- Positions that are not there yet have nothing to claim, so what they are paid later was
retained later. -/
theorem FairRun.feesPaidTo_le {S : ℕ → Prop} [DecidablePred S] (k : Asset) (hw : Wf a.world)
    (hg : GrowthBounded a.world.pool) (h : FairRun a es a')
    (hS : ∀ i, S i → a.world.pool.positions.next ≤ i) :
    feesPaidTo S k es ≤ feesRetained k es := by
  have hnone : a.claimable S k = 0 := by
    refine Accrual.owed_eq_zero fun i q hq => if_neg ?_
    rintro ⟨hi, -⟩
    exact absurd (IdStore.lt_next hq) (not_lt.mpr (hS i hi))
  have haccount := h.claimable_le S k hw hg
  rw [hnone, Nat.zero_add] at haccount
  exact Nat.le_of_mul_le_mul_right (le_trans (Nat.le_add_right _ _) haccount) Q96_pos

end Run

/-- Identifiers are handed out in order. -/
theorem Step.next_le {w w' : World} {e : Event} (hs : Step w e w') :
    w.pool.positions.next ≤ w'.pool.positions.next := by
  cases Step.cases hs with
  | add h =>
    rw [h.world]
    exact Nat.le_succ _
  | remove h =>
    obtain ⟨-, hpos, -⟩ | ⟨-, hpos, -⟩ := shrinkPosition_cases h.shrunk
    · rw [hpos, IdStore.next_erase]
    · rw [hpos, IdStore.next_replace]
  | swap h =>
    obtain ⟨_, _, -, -, hpool⟩ := settlePool_eq_ok.mp h.settled
    rw [hpool]
  | collect h => rw [h.world, IdStore.next_replace]
  | transferNft => exact le_rfl
  | closeLedger => exact le_rfl

/-- Whatever a run opens gets an identifier not yet handed out. -/
theorem Run.next_le_of_opened {w w' : World} {es : List Event} (h : Run w es w') {i : ℕ}
    (hi : i ∈ openedIn es) : w.pool.positions.next ≤ i := by
  induction h with
  | nil => cases hi
  | @cons w v u e es hstep _ ih =>
    have hnext := hstep.next_le
    simp only [openedIn, List.filterMap_cons] at hi ih
    cases Step.cases hstep with
    | add h =>
      rcases List.mem_cons.mp hi with rfl | hi
      · exact h.id_eq.ge
      · exact le_trans hnext (ih hi)
    | remove | swap | collect | transferNft | closeLedger => exact le_trans hnext (ih hi)

end Swyft.ClPool
