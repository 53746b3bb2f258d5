import Swyft.ClPool.Steps
import Swyft.ClPool.TickSearch

/-!
# The loop of `swap`, round by round

A round ends in one of three ways: the price makes a full move and the loop stops there, it makes
a full move and the tick there is crossed, or the remaining input runs out on the way. `Round` is
that case split, and `swapLoop_invariant` lifts what a round preserves to the whole loop.

## Main definitions

* `Round` — what one round did, by how it ended
* `visited` — the loop states the rounds of a swap start from
* `segmentTick` — the tick whose range the loop's liquidity belongs to

## Main results

* `swapStep_cases` — inversion of a round
* `swapLoop_invariant` — what every round preserves, the loop preserves
-/

namespace Swyft.ClPool

open Checked

variable {p : Pool} {zeroForOne : Bool} {limit : ℕ}

/-! ### The input of the loop -/

/-- What is left of an amount after the fee on it. -/
def afterFee (p : Pool) (amountIn : ℕ) : ℕ := amountIn - amountIn * p.feeTier / feeDenominator

theorem netInput_eq {amountIn net : ℕ} (h : netInput p amountIn = .ok net) :
    net = afterFee p amountIn := by
  simp only [netInput, bind_eq_ok, require_eq_ok, exists_const, checkedFee_eq_ok, subU_eq_ok] at h
  obtain ⟨-, _, ⟨-, rfl⟩, -, rfl⟩ := h
  rfl

/-! ### The parts of a round -/

/-- The accumulators after a segment, and what the code checked on the way. -/
theorem accumulateSegmentFee_eq_ok {d0 d1 amount feeTier liquidity e0 e1 : ℕ}
    (h : accumulateSegmentFee d0 d1 zeroForOne amount feeTier liquidity = .ok (e0, e1)) :
    ∃ growth, growth * liquidity ≤ amount * feeTier / feeDenominator * Q96 ∧
      (liquidity = 0 → growth = 0) ∧
      e0 = (if zeroForOne then d0 + growth else d0) ∧
      e1 = (if zeroForOne then d1 else d1 + growth) := by
  simp only [accumulateSegmentFee] at h
  split at h
  case isTrue h0 =>
    simp only [pure_eq_ok, Prod.mk.injEq] at h
    exact ⟨0, by simp, fun _ => rfl, by simp [h.1], by simp [h.2]⟩
  case isFalse h0 =>
    push Not at h0
    simp only [bind_eq_ok, checkedFee_eq_ok] at h
    obtain ⟨_, ⟨-, rfl⟩, h⟩ := h
    split at h
    case isTrue hz =>
      simp only [pure_eq_ok, Prod.mk.injEq] at h
      exact ⟨0, by simp, fun _ => rfl, by simp [h.1], by simp [h.2]⟩
    case isFalse hz =>
      simp only [bind_eq_ok, fitU_eq_ok] at h
      obtain ⟨_, ⟨-, rfl⟩, h⟩ := h
      refine ⟨amount * feeTier / feeDenominator * Q96 / liquidity, Nat.div_mul_le_self _ _,
        fun h => absurd h h0.2, ?_⟩
      cases zeroForOne <;>
      · simp only [if_true, Bool.false_eq_true, if_false, bind_eq_ok, fitU_eq_ok, pure_eq_ok,
          Prod.mk.injEq] at h ⊢
        obtain ⟨_, ⟨-, rfl⟩, rfl, rfl⟩ := h
        exact ⟨rfl, rfl⟩

theorem fullMove_eq_ok {st moved : SwapState} {target : ℕ} :
    fullMove p zeroForOne st target = .ok moved ↔
      st.amountOut + amountPaid zeroForOne st.sqrtPrice target st.liquidity < 2 ^ 128 ∧
      amountConsumed zeroForOne st.sqrtPrice target st.liquidity ≤ st.amountRemaining ∧
      ∃ d0 d1, accumulateSegmentFee st.feeGrowthDelta0 st.feeGrowthDelta1 zeroForOne
          (amountConsumed zeroForOne st.sqrtPrice target st.liquidity) p.feeTier st.liquidity
            = .ok (d0, d1) ∧
        moved = { st with
          amountRemaining := st.amountRemaining
            - amountConsumed zeroForOne st.sqrtPrice target st.liquidity
          amountOut := st.amountOut + amountPaid zeroForOne st.sqrtPrice target st.liquidity
          feeGrowthDelta0 := d0
          feeGrowthDelta1 := d1
          sqrtPrice := target } := by
  simp only [fullMove, bind_eq_ok, fitU_eq_ok, subU_eq_ok, Prod.exists, pure_eq_ok]
  constructor
  · rintro ⟨_, ⟨h1, rfl⟩, _, ⟨h2, rfl⟩, d0, d1, h3, rfl⟩
    exact ⟨h1, h2, d0, d1, h3, rfl⟩
  · rintro ⟨h1, h2, d0, d1, h3, rfl⟩
    exact ⟨_, ⟨h1, rfl⟩, _, ⟨h2, rfl⟩, d0, d1, h3, rfl⟩

theorem partialMove_eq_ok {st moved : SwapState} :
    partialMove p zeroForOne st = .ok moved ↔
      ∃ next, nextSqrtPriceFromInput st.sqrtPrice st.liquidity st.amountRemaining zeroForOne
          = .ok next ∧
        st.amountOut + amountPaid zeroForOne st.sqrtPrice next st.liquidity < 2 ^ 128 ∧
        ∃ d0 d1, accumulateSegmentFee st.feeGrowthDelta0 st.feeGrowthDelta1 zeroForOne
            st.amountRemaining p.feeTier st.liquidity = .ok (d0, d1) ∧
          moved = { st with
            amountRemaining := 0
            amountOut := st.amountOut + amountPaid zeroForOne st.sqrtPrice next st.liquidity
            feeGrowthDelta0 := d0
            feeGrowthDelta1 := d1 } := by
  simp only [partialMove, bind_eq_ok, fitU_eq_ok, Prod.exists, pure_eq_ok]
  constructor
  · rintro ⟨next, h0, _, ⟨h1, rfl⟩, d0, d1, h3, rfl⟩
    exact ⟨next, h0, h1, d0, d1, h3, rfl⟩
  · rintro ⟨next, h0, h1, d0, d1, h3, rfl⟩
    exact ⟨next, h0, _, ⟨h1, rfl⟩, d0, d1, h3, rfl⟩

/-- The net liquidity at a tick, as the source reads it. -/
theorem netAtTick_eq_ok {ticks : Ticks} {tick : ℤ} {n : ℕ} (h : netAtTick ticks tick = .ok n) :
    n = (readTick ticks tick).liquidityNet.natAbs := by
  simp only [netAtTick] at h
  split at h
  case isTrue hneg =>
    simp only [bind_eq_ok, negI128_eq_ok, pure_eq_ok] at h
    obtain ⟨_, ⟨-, rfl⟩, rfl⟩ := h
    omega
  case isFalse hpos =>
    simp only [pure_eq_ok] at h
    omega

theorem crossNext_eq_ok {st crossed : SwapState} {nextTick : ℤ}
    (h : crossNext p zeroForOne st nextTick = .ok crossed) :
    crossed = { st with
      liquidity := if zeroForOne then
          satSub st.liquidity (readTick st.ticks nextTick).liquidityNet.natAbs
        else satAdd 128 st.liquidity (readTick st.ticks nextTick).liquidityNet.natAbs
      ticks := crossTick st.ticks nextTick p.feeGrowthGlobal0 p.feeGrowthGlobal1
      currentTick := nextTick
      ticksCrossed := st.ticksCrossed + 1 } := by
  simp only [crossNext, bind_eq_ok, pure_eq_ok] at h
  obtain ⟨n, hn, rfl⟩ := h
  rw [netAtTick_eq_ok hn]

/-! ### A round -/

/-- What a round that starts at `st` did, by how it ended. -/
inductive Round (p : Pool) (zeroForOne : Bool) (limit : ℕ) (st : SwapState) :
    SwapState → Bool → Prop
  /-- The price moved to the target and the loop stopped there. -/
  | stop {next : ℤ} {initialized : Bool} {target : ℕ} {moved : SwapState}
      (found : findTarget p zeroForOne limit st = .ok (next, initialized, target))
      (move : fullMove p zeroForOne st target = .ok moved)
      (stops : moved.amountRemaining = 0 ∨ atLimit zeroForOne moved.sqrtPrice limit
        ∨ initialized = false) :
      Round p zeroForOne limit st moved false
  /-- The price moved to the target and the tick there was crossed. -/
  | cross {next : ℤ} {target : ℕ} {moved crossed : SwapState}
      (found : findTarget p zeroForOne limit st = .ok (next, true, target))
      (move : fullMove p zeroForOne st target = .ok moved)
      (spare : moved.amountRemaining ≠ 0) (inside : ¬ atLimit zeroForOne moved.sqrtPrice limit)
      (crossing : crossNext p zeroForOne moved next = .ok crossed) :
      Round p zeroForOne limit st crossed (decide (crossed.liquidity ≠ 0))
  /-- The input ran out on the way to the target. -/
  | within {next : ℤ} {initialized : Bool} {target : ℕ} {moved : SwapState}
      (found : findTarget p zeroForOne limit st = .ok (next, initialized, target))
      (short : st.amountRemaining
        < amountConsumed zeroForOne st.sqrtPrice target st.liquidity)
      (move : partialMove p zeroForOne st = .ok moved) :
      Round p zeroForOne limit st moved false

/-- **Inversion of a round.** -/
theorem swapStep_cases {st st' : SwapState} {goesOn : Bool}
    (h : swapStep p zeroForOne limit st = .ok (st', goesOn)) :
    Round p zeroForOne limit st st' goesOn := by
  simp only [swapStep, bind_eq_ok, Prod.exists] at h
  obtain ⟨next, initialized, target, hfound, h⟩ := h
  split at h
  case isTrue hle =>
    simp only [bind_eq_ok] at h
    obtain ⟨moved, hmove, h⟩ := h
    split at h
    case isTrue hstops =>
      simp only [pure_eq_ok, Prod.mk.injEq] at h
      obtain ⟨rfl, rfl⟩ := h
      exact .stop hfound hmove hstops
    case isFalse hgoes =>
      simp only [bind_eq_ok, pure_eq_ok, Prod.mk.injEq] at h
      obtain ⟨crossed, hcross, rfl, rfl⟩ := h
      push Not at hgoes
      obtain rfl : initialized = true := by simpa using hgoes.2.2
      exact .cross hfound hmove hgoes.1 hgoes.2.1 hcross
  case isFalse hshort =>
    simp only [bind_eq_ok, pure_eq_ok, Prod.mk.injEq] at h
    obtain ⟨moved, hmove, rfl, rfl⟩ := h
    exact .within hfound (not_le.mp hshort) hmove

/-- A round that succeeds has found its target. -/
theorem swapStep_found {st st' : SwapState} {goesOn : Bool}
    (h : swapStep p zeroForOne limit st = .ok (st', goesOn)) :
    ∃ next initialized target,
      findTarget p zeroForOne limit st = .ok (next, initialized, target) := by
  cases swapStep_cases h with
  | stop found _ _ => exact ⟨_, _, _, found⟩
  | cross found _ _ _ _ => exact ⟨_, _, _, found⟩
  | within found _ _ => exact ⟨_, _, _, found⟩

/-! ### The whole loop -/

/-- The loop states from which the rounds of a swap start. -/
def visited (p : Pool) (zeroForOne : Bool) (limit : ℕ) : (rounds : ℕ) → SwapState → List SwapState
  | 0, _ => []
  | rounds + 1, st =>
    if st.amountRemaining = 0 then []
    else st :: match swapStep p zeroForOne limit st with
      | .ok (st', true) => visited p zeroForOne limit rounds st'
      | _ => []

/-- A loop without input left is over. -/
theorem swapLoop_done {rounds : ℕ} {st final : SwapState} (hrem : st.amountRemaining = 0)
    (h : swapLoop p zeroForOne limit rounds st = .ok final) : final = st := by
  cases rounds <;> rw [swapLoop, if_pos hrem] at h <;> exact (pure_eq_ok.mp h).symm

/-- A loop with input left does a round, and goes on or ends with it. -/
theorem swapLoop_round {rounds : ℕ} {s final : SwapState} (hrem : s.amountRemaining ≠ 0)
    (h : swapLoop p zeroForOne limit rounds s = .ok final) :
    ∃ left s' goesOn, rounds = left + 1 ∧ swapStep p zeroForOne limit s = .ok (s', goesOn) ∧
      (if goesOn then swapLoop p zeroForOne limit left s' = .ok final else final = s') := by
  cases rounds with
  | zero =>
    rw [swapLoop, if_neg hrem] at h
    cases h
  | succ left =>
    rw [swapLoop, if_neg hrem] at h
    simp only [bind_eq_ok, Prod.exists] at h
    obtain ⟨s', goesOn, hstep, h⟩ := h
    refine ⟨left, s', goesOn, rfl, hstep, ?_⟩
    cases goesOn with
    | true => exact h
    | false => exact (pure_eq_ok.mp h).symm

/-- The tick whose range the loop's liquidity belongs to. Going down, the range below a crossed tick
ends just under it. -/
def segmentTick (zeroForOne : Bool) (st : SwapState) : ℤ :=
  if zeroForOne ∧ st.ticksCrossed ≠ 0 then st.currentTick - 1 else st.currentTick

/-- **The loop rule.** What every round preserves, starting where `C` holds, the loop preserves. -/
theorem swapLoop_invariant {C I : SwapState → Prop}
    (hround : ∀ st st' goesOn, C st → st.amountRemaining ≠ 0 →
      swapStep p zeroForOne limit st = .ok (st', goesOn) → I st → I st') :
    ∀ {rounds : ℕ} {st final : SwapState}, (∀ s ∈ visited p zeroForOne limit rounds st, C s) →
      swapLoop p zeroForOne limit rounds st = .ok final → I st → I final
  | 0, st, final, _, h, hI => by
    simp only [swapLoop] at h
    split at h
    · obtain rfl := pure_eq_ok.mp h; exact hI
    · cases h
  | rounds + 1, st, final, hC, h, hI => by
    simp only [swapLoop] at h
    split at h
    case isTrue => obtain rfl := pure_eq_ok.mp h; exact hI
    case isFalse hrem =>
      simp only [bind_eq_ok, Prod.exists] at h
      obtain ⟨st', goesOn, hstep, h⟩ := h
      simp only [visited, if_neg hrem, hstep, List.mem_cons] at hC
      have hI' := hround st st' goesOn (hC st (.inl rfl)) hrem hstep hI
      cases goesOn with
      | true => exact swapLoop_invariant hround (fun s hs => hC s (.inr hs)) h hI'
      | false =>
        obtain rfl := pure_eq_ok.mp h
        exact hI'

/-- The loop rule for what every round preserves wherever it starts. -/
theorem swapLoop_preserves {I : SwapState → Prop}
    (hround : ∀ st st' goesOn, Round p zeroForOne limit st st' goesOn → I st → I st')
    {rounds : ℕ} {st final : SwapState}
    (h : swapLoop p zeroForOne limit rounds st = .ok final) (hI : I st) : I final :=
  swapLoop_invariant (C := fun _ => True)
    (fun st st' g _ _ hs => hround st st' g (swapStep_cases hs)) (fun _ _ => trivial) h hI

end Swyft.ClPool
