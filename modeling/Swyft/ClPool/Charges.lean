import Swyft.ClPool.FeeShares
import Swyft.Lib.Floors

/-!
# What a swap charges

The input a swap takes in, segment by segment. A round takes what its full move consumes, or
whatever is left; the fee growth it adds is at most the fee on that, shared out over the liquidity
it holds. `swap` charges for the sum of the rounds, with one fee on it.

The fee is floored once on the input, once on what was traded, and once for each round before it is
scaled and divided by the liquidity. Floors of parts add up to at most the floor of the whole, so
the rounds together never hand out more than is charged.

## Main definitions

* `roundSum` — what the rounds of a swap add up to

## Main results

* `swapLoop_accounts` — the rounds of a loop add up to what it consumed and to the growth it added
* `swap_charges_traded` — a swap charges what its rounds took in, and the fee on that
-/

namespace Swyft.ClPool

open Checked

variable {p : Pool} {zeroForOne : Bool} {limit : ℕ}

/-! ### The whole loop -/

/-- A sum of the rounds' own amounts. -/
def roundSum (f : SwapState → ℕ) (rounds : List SwapState) : ℕ := (rounds.map f).sum

theorem roundSum_cons (f : SwapState → ℕ) (st : SwapState) (rounds : List SwapState) :
    roundSum f (st :: rounds) = f st + roundSum f rounds := by
  simp only [roundSum, List.map_cons, List.sum_cons]

/-- The account of a loop that started from `st`. -/
structure LoopAccounts (p : Pool) (zeroForOne : Bool) (limit : ℕ) (rounds : List SwapState)
    (st final : SwapState) : Prop where
  taken : final.amountRemaining + roundSum (roundInput p zeroForOne limit) rounds
    = st.amountRemaining
  covered : ∀ s ∈ rounds, roundGrowth p zeroForOne limit s * s.liquidity
    ≤ roundInput p zeroForOne limit s * p.feeTier / feeDenominator * Q96
  grown : ∀ k, final.delta k = st.delta k
    + if k = inputAsset zeroForOne then roundSum (roundGrowth p zeroForOne limit) rounds else 0

theorem LoopAccounts.nil (st : SwapState) : LoopAccounts p zeroForOne limit [] st st :=
  ⟨Nat.add_zero _, List.forall_mem_nil _, fun k => by simp [roundSum]⟩

theorem RoundAccounts.cons {st st' final : SwapState} {rounds : List SwapState}
    (h : RoundAccounts p zeroForOne limit st st')
    (hrest : LoopAccounts p zeroForOne limit rounds st' final) :
    LoopAccounts p zeroForOne limit (st :: rounds) st final := by
  have htaken := h.taken
  have htaken' := hrest.taken
  refine ⟨?_, List.forall_mem_cons.mpr ⟨h.covered, hrest.covered⟩, fun k => ?_⟩
  · rw [roundSum_cons]
    omega
  · rw [hrest.grown, h.grown, roundSum_cons]
    split <;> omega

/-- **The rounds of a loop add up** to the input it consumed and the growth it added. -/
theorem swapLoop_accounts : ∀ {rounds : ℕ} {st final : SwapState},
    swapLoop p zeroForOne limit rounds st = .ok final →
      LoopAccounts p zeroForOne limit (visited p zeroForOne limit rounds st) st final
  | rounds, st, final, h => by
    by_cases hrem : st.amountRemaining = 0
    · obtain rfl := swapLoop_done hrem h
      have hnone : visited p zeroForOne limit rounds final = [] := by
        cases rounds
        · rfl
        · rw [visited, if_pos hrem]
      rw [hnone]
      exact .nil final
    · obtain ⟨left, st', goesOn, rfl, hstep, hrest⟩ := swapLoop_round hrem h
      rw [visited, if_neg hrem, hstep]
      cases goesOn with
      | true => exact (swapStep_accounts hstep).cons (swapLoop_accounts hrest)
      | false =>
        obtain rfl : final = st' := hrest
        exact (swapStep_accounts hstep).cons (.nil final)

/-- The growth of the rounds, over the liquidity each held, is within the fee on the input. -/
theorem LoopAccounts.growth_le {rounds : List SwapState} {st final : SwapState}
    (h : LoopAccounts p zeroForOne limit rounds st final) :
    roundSum (fun s => roundGrowth p zeroForOne limit s * s.liquidity / Q96) rounds
      ≤ roundSum (roundInput p zeroForOne limit) rounds * p.feeTier / feeDenominator := by
  have hround : ∀ s ∈ rounds, roundGrowth p zeroForOne limit s * s.liquidity / Q96
      ≤ roundInput p zeroForOne limit s * p.feeTier / feeDenominator := fun s hs =>
    Nat.div_le_of_le_mul (by rw [Nat.mul_comm Q96]; exact h.covered s hs)
  calc roundSum (fun s => roundGrowth p zeroForOne limit s * s.liquidity / Q96) rounds
      ≤ roundSum (fun s => roundInput p zeroForOne limit s * p.feeTier / feeDenominator) rounds :=
        List.sum_le_sum hround
    _ = ((rounds.map fun s => roundInput p zeroForOne limit s * p.feeTier).map
          (· / feeDenominator)).sum := by rw [roundSum, List.map_map]; rfl
    _ ≤ (rounds.map fun s => roundInput p zeroForOne limit s * p.feeTier).sum
          / feeDenominator := Floors.sum_div_le (by decide) le_rfl
    _ = _ := by rw [List.sum_map_mul_right]; rfl

/-! ### The charge -/

/-- The contract of a token of the pool. -/
def Pool.token (p : Pool) : Asset → Address
  | .zero => p.token0
  | .one => p.token1

/-- The token a swap pays out. -/
def outputAsset (zeroForOne : Bool) : Asset := if zeroForOne then .one else .zero

theorem transferSwap_eq_ok {w : World} {sender : Address} {inputPaid amountOut : ℕ}
    {tokens : Tokens} (h : transferSwap w sender zeroForOne inputPaid amountOut = .ok tokens) :
    ∃ mid, w.tokens.transfer (w.pool.token (inputAsset zeroForOne)) sender w.self inputPaid
        = .ok mid ∧
      (if 0 < amountOut then
          mid.transfer (w.pool.token (outputAsset zeroForOne)) w.self sender amountOut
        else .ok mid) = .ok tokens := by
  simp only [transferSwap, bind_eq_ok, toI128_eq_ok] at h
  obtain ⟨_, ⟨-, rfl⟩, mid, hmid, h⟩ := h
  refine ⟨mid, by cases zeroForOne <;> exact hmid, ?_⟩
  split at h
  case isTrue hpos =>
    simp only [bind_eq_ok, toI128_eq_ok] at h
    obtain ⟨_, ⟨-, rfl⟩, h⟩ := h
    rw [if_pos hpos]
    cases zeroForOne <;> exact h
  case isFalse hpos =>
    rw [if_neg hpos]
    exact h

/-- The fee on part of what is left after the fee fits into the rest. -/
theorem charge_le {amountIn net base : ℕ} (hnet : netInput p amountIn = .ok net)
    (hbase : base ≤ net) : base + base * p.feeTier / feeDenominator ≤ amountIn := by
  simp only [netInput, bind_eq_ok, require_eq_ok, exists_const, checkedFee_eq_ok, subU_eq_ok]
    at hnet
  obtain ⟨-, _, ⟨-, rfl⟩, hle, rfl⟩ := hnet
  have hfee : base * p.feeTier / feeDenominator ≤ amountIn * p.feeTier / feeDenominator :=
    Nat.div_le_div_right (Nat.mul_le_mul_right _ (le_trans hbase (Nat.sub_le _ _)))
  omega

/-- **A swap charges what it trades.** Its rounds together take in `base`; it is charged `base` and
the fee on it, at most what was offered. What the rounds add to the fee growth, over the liquidity
each held, is within that fee, and all of it is in the input's token. The sender pays the charge and
is paid the output, and the two deltas are these amounts. -/
theorem swap_charges_traded {w w' : World} {sender : Address} {amountIn : ℕ} {delta0 delta1 : ℤ}
    {outcome : SwapOutcome}
    (h : swap w sender zeroForOne amountIn limit = .ok (w', delta0, delta1, outcome)) :
    let rounds := swapRounds w.pool zeroForOne amountIn limit
    let base := roundSum (roundInput w.pool zeroForOne limit) rounds
    ∃ fee, checkedFee base w.pool.feeTier = .ok fee ∧
      outcome.inputPaid = base + fee ∧ outcome.inputPaid ≤ amountIn ∧
      roundSum (fun st => roundGrowth w.pool zeroForOne limit st * st.liquidity / Q96) rounds
        ≤ fee ∧
      (∀ k, w'.pool.growth k = w.pool.growth k + if k = inputAsset zeroForOne then
        roundSum (roundGrowth w.pool zeroForOne limit) rounds else 0) ∧
      (∃ mid, w.tokens.transfer (w.pool.token (inputAsset zeroForOne)) sender w.self
          outcome.inputPaid = .ok mid ∧
        (if 0 < outcome.final.amountOut then mid.transfer
            (w.pool.token (outputAsset zeroForOne)) w.self sender outcome.final.amountOut
          else .ok mid) = .ok w'.tokens) ∧
      (delta0, delta1) = if zeroForOne then
          ((outcome.inputPaid : ℤ), -(outcome.final.amountOut : ℤ))
        else (-(outcome.final.amountOut : ℤ), (outcome.inputPaid : ℤ)) := by
  obtain ⟨hswapped, -, hdelta0, hdelta1⟩ := swap_eq_ok.mp h
  obtain ⟨net, hnet, -, -, hloop, hle, htraded, hfee, -, hpaid⟩ :=
    computeSwap_eq_ok.mp hswapped.computed
  have haccounts := swapLoop_accounts hloop
  have hrounds : visited w.pool zeroForOne limit maxSwapIterations (swapStart w.pool net)
      = swapRounds w.pool zeroForOne amountIn limit := by
    simp only [swapRounds, hnet]
  rw [hrounds] at haccounts
  have hbase : outcome.tradedBase = roundSum (roundInput w.pool zeroForOne limit)
      (swapRounds w.pool zeroForOne amountIn limit) := by
    have htaken : _ = net := haccounts.taken
    omega
  have hfloor := (checkedFee_eq_ok.mp hfee).2
  refine ⟨outcome.feeOnTraded, hbase ▸ hfee, hbase ▸ hpaid, ?_, ?_, fun k => ?_,
    transferSwap_eq_ok hswapped.transfers, ?_⟩
  · rw [hpaid, ← hfloor]
    exact charge_le hnet (by omega)
  · rw [← hfloor, hbase]
    exact haccounts.growth_le
  · have hgrown := haccounts.grown k
    have hstart : (swapStart w.pool net).delta k = 0 := by cases k <;> rfl
    rw [hstart, Nat.zero_add] at hgrown
    rw [← hgrown]
    cases k with
    | zero => exact hswapped.growth.1
    | one => exact hswapped.growth.2
  · rw [hdelta0, hdelta1]
    cases zeroForOne <;> rfl

/-- A swap across one tick. -/
theorem swap_charges_across_tick :
    ∃ w w' delta0 delta1 outcome, Reachable w ∧
      swap w ⟨9⟩ false 5000 u128Max = .ok (w', delta0, delta1, outcome) ∧
      outcome.final.ticksCrossed = 1 ∧ outcome.inputPaid ≤ 5000 := by
  obtain ⟨w, hr, hw⟩ := exists_reachable 3000 unitPrice
    [.addLiquidity ⟨7⟩ (-60) 60 1000000, .addLiquidity ⟨7⟩ 60 120 3000000]
    (fun w => Yields (swap w ⟨9⟩ false 5000 u128Max) fun x => x.2.2.2.final.ticksCrossed = 1)
    (by decide)
  obtain ⟨⟨w', delta0, delta1, outcome⟩, hswap, hcrossed⟩ := yields_iff.mp hw
  obtain ⟨fee, -, -, hle, -⟩ := swap_charges_traded hswap
  exact ⟨w, w', delta0, delta1, outcome, hr, hswap, hcrossed, hle⟩

end Swyft.ClPool
