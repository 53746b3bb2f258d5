import Swyft.ClPool.WellFormed

/-!
# Fee growth

`swap` adds to a global growth for the token it takes in; a position snapshots `fee_growth_inside`
when it opens and at every `collect`, and `collect` pays the wrapping difference. Inside growth is
the whole global growth while the current tick is in the position's range and zero otherwise, so a
snapshot taken out of range is zero whatever was earned before.

Both tokens are treated alike from here on, indexed by `Asset`.
-/

namespace Swyft.ClPool

open Checked

/-- The pool's two tokens. -/
inductive Asset where
  | zero
  | one
  deriving DecidableEq

/-- The global growth of a token. -/
def Pool.growth (p : Pool) : Asset → ℕ
  | .zero => p.feeGrowthGlobal0
  | .one => p.feeGrowthGlobal1

/-- A position's snapshot of a token's inside growth. -/
def Position.last (q : Position) : Asset → ℕ
  | .zero => q.feeGrowthInside0Last
  | .one => q.feeGrowthInside1Last

/-- The current tick is in the position's range. -/
def Pool.inRange (p : Pool) (q : Position) : Prop :=
  q.tickLower ≤ p.currentTick ∧ p.currentTick < q.tickUpper

instance (p : Pool) (q : Position) : Decidable (p.inRange q) :=
  inferInstanceAs (Decidable (_ ∧ _))

/-- The inside growth of a position's range. -/
def Pool.inside (p : Pool) (k : Asset) (q : Position) : ℕ :=
  if p.inRange q then p.growth k else 0

/-- The growth `collect` shares out to a position. -/
def Pool.pending (p : Pool) (k : Asset) (q : Position) : ℕ :=
  wrapSub 128 (p.inside k q) (q.last k)

theorem inside_le (p : Pool) (k : Asset) (q : Position) : p.inside k q ≤ p.growth k := by
  rw [Pool.inside]
  split
  · exact le_rfl
  · exact Nat.zero_le _

@[simp] theorem newPosition_last (p : Pool) (owner : Address) (tickLower tickUpper : ℤ)
    (liquidity nftId : ℕ) (k : Asset) :
    (newPosition p owner tickLower tickUpper liquidity nftId).last k
      = p.inside k (newPosition p owner tickLower tickUpper liquidity nftId) := by
  cases k <;> rfl

@[simp] theorem collected_last (p : Pool) (q : Position) (owner : Address) (k : Asset) :
    (q.collected owner (p.inside0 q) (p.inside1 q)).last k = p.inside k q := by
  cases k <;> rfl

@[simp] theorem shrunk_last (q : Position) (owner : Address) (liquidity : ℕ) (k : Asset) :
    ({ q with owner, liquidity } : Position).last k = q.last k := by
  cases k <;> rfl

/-! ### Snapshots never run ahead -/

/-- The growths fit in a word, and no snapshot is ahead of the growth it was taken from. -/
structure GrowthBounded (p : Pool) : Prop where
  fits : ∀ k, p.growth k < 2 ^ 128
  last_le : ∀ k i q, p.positions.get? i = some q → q.last k ≤ p.growth k

theorem Swapped.growth {w w' : World} {sender : Address} {zeroForOne : Bool}
    {amountIn limit : ℕ} {outcome : SwapOutcome}
    (h : Swapped w sender zeroForOne amountIn limit w' outcome) :
    w'.pool.feeGrowthGlobal0 = w.pool.feeGrowthGlobal0 + outcome.final.feeGrowthDelta0 ∧
      w'.pool.feeGrowthGlobal1 = w.pool.feeGrowthGlobal1 + outcome.final.feeGrowthDelta1 := by
  obtain ⟨fg0, fg1, h0, h1, hpool⟩ := settlePool_eq_ok.mp h.settled
  rw [hpool]
  exact ⟨(rollFeeGrowth_eq_ok h0).1, (rollFeeGrowth_eq_ok h1).1⟩

theorem GrowthBounded.step {w w' : World} {e : Event} (hw : GrowthBounded w.pool)
    (hs : Step w e w') : GrowthBounded w'.pool := by
  cases Step.cases hs with
  | add h =>
    rw [h.world]
    refine ⟨hw.fits, fun k => IdStore.forall_push (hw.last_le k) ?_⟩
    rw [newPosition_last]
    exact inside_le _ _ _
  | remove h =>
    have hlast := fun k => hw.last_le k _ _ h.found
    rw [h.world]
    obtain ⟨-, hpos, -⟩ | ⟨-, hpos, -⟩ := shrinkPosition_cases h.shrunk
    · rw [hpos]
      exact ⟨hw.fits, fun k => IdStore.forall_erase (hw.last_le k)⟩
    · rw [hpos]
      exact ⟨hw.fits, fun k => IdStore.forall_replace h.found (hw.last_le k)
        (by rw [shrunk_last]; exact hlast k)⟩
  | swap h =>
    obtain ⟨fg0, fg1, h0, h1, hpool⟩ := settlePool_eq_ok.mp h.settled
    have hfit : ∀ {g d r : ℕ}, g < 2 ^ 128 → rollFeeGrowth g d = .ok r → r < 2 ^ 128 ∧ g ≤ r := by
      intro g d r hg hr
      obtain ⟨rfl, hlt⟩ := rollFeeGrowth_eq_ok hr
      by_cases hd : 0 < d
      · exact ⟨hlt hd, Nat.le_add_right _ _⟩
      · obtain rfl : d = 0 := by omega
        exact ⟨hg, le_rfl⟩
    have h0 := hfit (hw.fits .zero) h0
    have h1 := hfit (hw.fits .one) h1
    rw [hpool]
    refine ⟨fun k => ?_, fun k i q hq => ?_⟩
    · cases k with
      | zero => exact h0.1
      | one => exact h1.1
    · have := hw.last_le k i q hq
      cases k with
      | zero => exact le_trans this h0.2
      | one => exact le_trans this h1.2
  | collect h =>
    rw [h.world]
    refine ⟨hw.fits, fun k => IdStore.forall_replace h.found (hw.last_le k) ?_⟩
    rw [collected_last]
    exact inside_le _ _ _
  | transferNft => exact hw
  | closeLedger => exact hw

theorem Reachable.growthBounded {w : World} (h : Reachable w) : GrowthBounded w.pool := by
  refine h.invariant (I := fun w => GrowthBounded w.pool) (fun w hg => ?_)
    fun _ _ _ hw hs => hw.step hs
  obtain ⟨self, tokens, oracle, now, token0, token1, feeTier, sqrtPriceX96, nftContract, hg⟩ := hg
  obtain ⟨-, rfl⟩ := genesis_eq_ok hg
  exact ⟨fun k => by cases k <;> exact Nat.two_pow_pos 128, by rintro k i q ⟨⟩⟩

/-! ### What is pending -/

/-- In range, the growth since the snapshot. -/
theorem GrowthBounded.pending_inRange {p : Pool} (h : GrowthBounded p) {i : ℕ} {q : Position}
    (hq : p.positions.get? i = some q) (k : Asset) (hin : p.inRange q) :
    p.pending k q = p.growth k - q.last k := by
  rw [Pool.pending, Pool.inside, if_pos hin]
  exact wrapSub_of_le (h.last_le k i q hq) (h.fits k)

/-- Out of range, nothing if the snapshot is zero and almost a whole word if it is not. -/
theorem GrowthBounded.pending_outOfRange {p : Pool} (h : GrowthBounded p) {i : ℕ} {q : Position}
    (hq : p.positions.get? i = some q) (k : Asset) (hout : ¬ p.inRange q) :
    p.pending k q = if q.last k = 0 then 0 else 2 ^ 128 - q.last k := by
  rw [Pool.pending, Pool.inside, if_neg hout]
  split
  case isTrue h0 => rw [h0, wrapSub_self]
  case isFalse h0 =>
    rw [wrapSub_of_lt (Nat.pos_of_ne_zero h0)
      (lt_of_le_of_lt (h.last_le k i q hq) (h.fits k)), Nat.sub_zero]

/-- The fees `collect` pays on a record that owes nothing yet. -/
theorem feesOwed_zero_eq_ok {inside last liquidity fee : ℕ} :
    feesOwed 0 inside last liquidity = .ok fee ↔
      wrapSub 128 inside last * liquidity < 2 ^ 128 ∧
        fee = wrapSub 128 inside last * liquidity / Q96 := by
  simp only [feesOwed, bind_eq_ok, mulU128_eq_ok, addU128_eq_ok, Nat.zero_add]
  constructor
  · rintro ⟨_, ⟨h, rfl⟩, -, rfl⟩; exact ⟨h, rfl⟩
  · rintro ⟨h, rfl⟩
    exact ⟨_, ⟨h, rfl⟩, lt_of_le_of_lt (Nat.div_le_self _ _) h, rfl⟩

/-- What a successful `collect` paid. -/
theorem Collected.fees {w w' : World} {owner : Address} {id fee0 fee1 : ℕ} {position : Position}
    (hw : Wf w) (h : Collected w owner id position w' fee0 fee1) :
    (∀ k, w.pool.pending k position * position.liquidity < 2 ^ 128) ∧
      fee0 = w.pool.pending .zero position * position.liquidity / Q96 ∧
      fee1 = w.pool.pending .one position * position.liquidity / Q96 := by
  have hp := hw.positions _ _ h.found
  have h0 := h.owed0
  have h1 := h.owed1
  rw [hp.owed0] at h0
  rw [hp.owed1] at h1
  obtain ⟨hfit0, h0⟩ := feesOwed_zero_eq_ok.mp h0
  obtain ⟨hfit1, h1⟩ := feesOwed_zero_eq_ok.mp h1
  refine ⟨fun k => ?_, h0, h1⟩
  cases k with
  | zero => exact hfit0
  | one => exact hfit1

end Swyft.ClPool
