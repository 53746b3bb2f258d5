import Swyft.PoolContract.Books

/-!
# Active liquidity of the pool contract

`mint` and `burn` add and subtract the liquidity of ranges that hold the current tick. `swap` moves
the tick, over any number of initialised ticks, and never calls `cross_tick`: the stored liquidity
stays what it was. So it stays right exactly when the ranges left and the ranges entered hold the
same liquidity.

## Main results

* `ActiveAgrees.step_iff` — one step
* `liquidity_of_balanced_run` — the runs along which the stored liquidity is right throughout
-/

namespace Swyft.PoolContract

open Checked

/-- The liquidity of the ranges that hold `t`. -/
def activeAt (held : Ledger Slot) (t : ℤ) : ℕ := held.sumBy fun k n => if k.holds t then n else 0

/-- The liquidity of the ranges that hold `s` and not `t`. -/
def leaving (held : Ledger Slot) (s t : ℤ) : ℕ :=
  held.sumBy fun k n => if k.holds s ∧ ¬ k.holds t then n else 0

/-- What is left on the way from `s` to `t`, and what is entered. -/
theorem activeAt_add_leaving (held : Ledger Slot) (s t : ℤ) :
    activeAt held s + leaving held t s = activeAt held t + leaving held s t := by
  rw [activeAt, activeAt, leaving, leaving, ← Ledger.sumBy_add, ← Ledger.sumBy_add]
  refine Ledger.sumBy_congr fun k => ?_
  by_cases hs : k.holds s <;> by_cases ht : k.holds t <;> simp [hs, ht]

/-- A swap that leaves as much liquidity as it enters. -/
def BalancedSwap (b : Books Slot) (tokenIn : Address) (amountIn limit : ℕ) : Prop :=
  Ensures (swapPrice b.world.pool.state (zeroForOne b.world.pool.state tokenIn) amountIn limit)
    fun price =>
      leaving b.held b.world.pool.state.tick (sqrtPriceToTick price)
        = leaving b.held (sqrtPriceToTick price) b.world.pool.state.tick

/-- A call that is a balanced swap or no swap at all. -/
def BalancedCall (b : Books Slot) : Call → Prop
  | .swap tokenIn _ amountIn _ limit => BalancedSwap b tokenIn amountIn limit
  | _ => True

instance (b : Books Slot) (tokenIn : Address) (amountIn limit : ℕ) :
    Decidable (BalancedSwap b tokenIn amountIn limit) :=
  inferInstanceAs (Decidable (Ensures _ _))

instance (b : Books Slot) : (c : Call) → Decidable (BalancedCall b c)
  | .swap tokenIn _ amountIn _ limit =>
    inferInstanceAs (Decidable (BalancedSwap b tokenIn amountIn limit))
  | .mint .. | .burn .. | .collect .. | .closeLedger .. => instDecidableTrue

/-- The stored liquidity is that of the ranges that hold the current tick. -/
def ActiveAgrees (b : Books Slot) : Prop :=
  b.world.pool.state.liquidity = activeAt b.held b.world.pool.state.tick

/-- A named run whose swaps are all balanced. -/
abbrev BalancedRun := Trace fun (b : Books Slot) (e : Event) b' =>
  Fires (Books.exec bySlot) b e b' ∧ bySlot.Named b.held e.1 ∧ BalancedCall b e.1

/-- A named run with the right stored liquidity after every step. -/
abbrev AgreeingRun := Trace fun (b : Books Slot) (e : Event) b' =>
  Fires (Books.exec bySlot) b e b' ∧ bySlot.Named b.held e.1 ∧ ActiveAgrees b'

/-- **One step.** Only an unbalanced swap upsets the stored liquidity, and it always does. -/
theorem ActiveAgrees.step_iff {b b' : Books Slot} {e : Event} (h : ActiveAgrees b)
    (hs : Fires (Books.exec bySlot) b e b') (hn : bySlot.Named b.held e.1) :
    ActiveAgrees b' ↔ BalancedCall b e.1 := by
  obtain ⟨hs, hheld⟩ := Books.fires_iff.mp hs
  rw [ActiveAgrees] at h
  cases Step.cases hs with
  | @mint sender id l u amount amounts hm =>
    have hsum := Ledger.sumBy_credit (s := b.held) (k := ⟨id, l, u⟩) (n := amount)
      (f := fun k n => if k.holds b.world.pool.state.tick then n else 0)
      (by simp) (by intros; split_ifs <;> rfl)
    have hactive := hm.active
    refine iff_of_true ?_ trivial
    rw [ActiveAgrees, hheld, hm.state]
    show b'.world.pool.state.liquidity = activeAt (b.held.credit ⟨id, l, u⟩ amount) _
    rw [activeAt, hsum, hactive, h]
    rfl
  | @burn sender id l u amount amounts hb =>
    have hsum := Ledger.sumBy_debit (s := b.held) (k := ⟨id, l, u⟩) (n := amount)
      (f := fun k n => if k.holds b.world.pool.state.tick then n else 0)
      (by simp) (by intros; split_ifs <;> rfl) hn
    have hactive := hb.active
    refine iff_of_true ?_ trivial
    rw [ActiveAgrees, hheld, hb.state]
    show b'.world.pool.state.liquidity = activeAt (b.held.debit ⟨id, l, u⟩ amount) _
    rw [h, activeAt, ← hsum] at hactive
    exact Nat.add_right_cancel hactive
  | swap hsw =>
    obtain ⟨price, hprice, hpool⟩ := hsw.moved
    have hsplit := activeAt_add_leaving b.held b.world.pool.state.tick (sqrtPriceToTick price)
    rw [ActiveAgrees, hheld, hpool, BalancedCall, BalancedSwap, hprice]
    show b.world.pool.state.liquidity = activeAt b.held (sqrtPriceToTick price) ↔
      leaving b.held _ (sqrtPriceToTick price) = leaving b.held (sqrtPriceToTick price) _
    omega
  | collect hc =>
    obtain ⟨-, -, hstate, -⟩ := collect_frame hc
    refine iff_of_true ?_ trivial
    rw [ActiveAgrees, hheld, hstate]
    exact h
  | closeLedger hw =>
    refine iff_of_true ?_ trivial
    rw [ActiveAgrees, hheld, hw]
    exact h

theorem ActiveAgrees.start {g : World} (hg : Genesis g) : ActiveAgrees (Books.start g) := by
  obtain ⟨_, _, _, _, hpool⟩ := hg.pool_eq
  show g.pool.state.liquidity = _
  rw [hpool]
  rfl

/-- Agreement throughout is balance throughout. -/
theorem ActiveAgrees.run_iff {b b' : Books Slot} {es : List Event} (h : ActiveAgrees b) :
    AgreeingRun b es b' ↔ BalancedRun b es b' := by
  constructor
  · intro hr
    induction hr with
    | nil => exact .nil _
    | cons hs _ ih =>
      obtain ⟨hfires, hn, hagrees⟩ := hs
      exact .cons ⟨hfires, hn, (h.step_iff hfires hn).mp hagrees⟩ (ih hagrees)
  · intro hr
    induction hr with
    | nil => exact .nil _
    | cons hs _ ih =>
      obtain ⟨hfires, hn, hbalanced⟩ := hs
      have hagrees := (h.step_iff hfires hn).mpr hbalanced
      exact .cons ⟨hfires, hn, hagrees⟩ (ih hagrees)

end Swyft.PoolContract
