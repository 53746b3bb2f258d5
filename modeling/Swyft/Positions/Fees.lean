import Mathlib.Algebra.Group.Prod
import Mathlib.Algebra.Order.BigOperators.Group.List
import Mathlib.Algebra.Order.Field.Rat
import Mathlib.Tactic.Linarith
import Mathlib.Tactic.Ring
import Swyft.Lib.Grouping
import Swyft.Positions.Activity

/-!
# Uncollected fees

What `toSnapshots` of `apps/api/src/positions/positions.repository.ts` computes of a position: its
value and its part of the fees of the pool that are not yet collected. The numbers are exact
rationals, which stand for the texts that are made of them; how a text is read as a number is
given.

The fees of the pool in token 0 are estimated from its swaps, and what was collected is taken off.
In token 1 what was collected is counted as what is not.

## Main results

* `collecting_iff` — collecting fees does not raise what is uncollected, exactly if the amount in
  token 1 is zero or the position has no liquidity
-/

namespace Swyft.Positions

open Grouping Listings

/-! ### Worth -/

/-- What `toSnapshots` reads of a pool. -/
structure PoolState where
  feeTier : ℤ
  liquidity : String
  tvl : String
  currentPrice : Option String
  deriving DecidableEq

/-- How texts are read as numbers, `parseFloat` with nothing for what is not a number. -/
structure Reading where
  number : String → ℚ
  parseFloat : String → Option ℚ

/-- The tables that `toSnapshots` reads. -/
structure FeeTables where
  db : Listings.Database
  state : String → PoolState
  feesCollected : List FeesCollected

/-- What is computed of a position. -/
structure Worth where
  currentValueUsd : ℚ
  uncollectedFeesToken0 : ℚ
  uncollectedFeesToken1 : ℚ
  poolCurrentPrice : Option ℚ
  deriving DecidableEq

namespace Reading

/-- `parseFloat(text) || 0`. -/
def orZero (R : Reading) (text : String) : ℚ := (R.parseFloat text).getD 0

/-- `poolSwapVolume`, by pools. -/
def poolSwapVolume (R : Reading) (swaps : List SwapRow) : String → ℚ :=
  totals SwapRow.poolId (fun s => |R.number s.amount0|) swaps

/-- `poolFeesCollected`, by pools: the amounts of both tokens. -/
def poolFeesCollected (R : Reading) (fees : List FeesCollected) : String → ℚ × ℚ :=
  totals FeesCollected.poolId (fun f => (|R.number f.amount0|, |R.number f.amount1|)) fees

/-- The body of the loop of `toSnapshots`. -/
def worth (R : Reading) (T : FeeTables) (volume : String → ℚ) (collected : String → ℚ × ℚ)
    (position : PositionRow) : Worth :=
  let pool := T.state position.poolId
  let posLiquidity := R.orZero position.liquidity
  let poolLiquidity := R.orZero pool.liquidity
  let poolTvl := R.orZero pool.tvl
  let liquidityShare := if 0 < poolLiquidity then posLiquidity / poolLiquidity else 0
  let feeTierPpm : ℚ := pool.feeTier / 1000000
  let totalPoolFees0 := volume position.poolId * feeTierPpm
  let rawUnclaimed0 :=
    totalPoolFees0 * liquidityShare - (collected position.poolId).1 * liquidityShare
  let rawUnclaimed1 := (collected position.poolId).2 * liquidityShare
  { currentValueUsd := if 0 < poolLiquidity then posLiquidity / poolLiquidity * poolTvl else 0
    uncollectedFeesToken0 := max 0 rawUnclaimed0
    uncollectedFeesToken1 := max 0 rawUnclaimed1
    poolCurrentPrice := R.parseFloat (pool.currentPrice.getD "0") }

/-- `toSnapshots`, of positions that were found. -/
def toSnapshots (R : Reading) (T : FeeTables) (positions : List PositionRow) :
    List (PositionSnapshot Worth) :=
  let poolIds := positions.map PositionRow.poolId
  let swaps := T.db.swaps.filter fun s => s.poolId ∈ poolIds
  let fees := T.feesCollected.filter fun f => f.poolId ∈ poolIds
  Listings.toSnapshots T.db (R.worth T (R.poolSwapVolume swaps) (R.poolFeesCollected fees))
    positions

end Reading

/-- One more row of collected fees. -/
def FeeTables.collect (T : FeeTables) (f : FeesCollected) : FeeTables :=
  { T with feesCollected := T.feesCollected ++ [f] }

/-! ### Collecting -/

namespace FeeTables

variable (R : Reading) (T : FeeTables) (poolId : String)

/-- All that was swapped in a pool, in token 0. -/
def swapped : ℚ :=
  ((T.db.swaps.filter fun s => s.poolId = poolId).map fun s => |R.number s.amount0|).sum

/-- All that was collected in a pool, in token 0. -/
def collected0 : ℚ :=
  ((T.feesCollected.filter fun f => f.poolId = poolId).map fun f => |R.number f.amount0|).sum

/-- All that was collected in a pool, in token 1. -/
def collected1 : ℚ :=
  ((T.feesCollected.filter fun f => f.poolId = poolId).map fun f => |R.number f.amount1|).sum

end FeeTables

/-- Uncollected fees did not go up. -/
def NotRaised (before after : PositionSnapshot Worth) : Prop :=
  after.worth.uncollectedFeesToken0 ≤ before.worth.uncollectedFeesToken0 ∧
    after.worth.uncollectedFeesToken1 ≤ before.worth.uncollectedFeesToken1

variable {R : Reading} {T : FeeTables} {positions : List PositionRow} {position : PositionRow}
  {f : FeesCollected}

/-- The rows of a pool among those of the pools that are asked for. -/
theorem filter_mem_filter {α : Type} {key : α → String} {ids : List String} {id : String}
    (hid : id ∈ ids) (rows : List α) :
    (rows.filter fun a => key a ∈ ids).filter (fun a => key a = id) =
      rows.filter fun a => key a = id := by
  rw [List.filter_filter]
  refine List.filter_congr fun a _ => ?_
  simp only [← Bool.decide_and, decide_eq_decide]
  exact ⟨And.left, fun heq => ⟨heq, heq ▸ hid⟩⟩

theorem sum_map_prod {α : Type} (f g : α → ℚ) (l : List α) :
    (l.map fun a => (f a, g a)).sum = ((l.map f).sum, (l.map g).sum) := by
  induction l with
  | nil => rfl
  | cons a l ih => rw [List.map_cons, List.sum_cons, ih, List.map_cons, List.map_cons,
      List.sum_cons, List.sum_cons, Prod.mk_add_mk]

/-- Of the totals by pools, the ones of the position's pool matter. -/
theorem worth_congr {volume volume' : String → ℚ} {collected collected' : String → ℚ × ℚ}
    (hvolume : volume position.poolId = volume' position.poolId)
    (hcollected : collected position.poolId = collected' position.poolId) :
    R.worth T volume collected position = R.worth T volume' collected' position := by
  simp only [Reading.worth, hvolume, hcollected]

/-- What is computed of each position. -/
def worthOf (R : Reading) (T : FeeTables) : PositionRow → Worth :=
  R.worth T (T.swapped R) fun id => (T.collected0 R id, T.collected1 R id)

theorem toSnapshots_worth (R : Reading) (T : FeeTables) (positions : List PositionRow) :
    (R.toSnapshots T positions).map (·.worth) = positions.map (worthOf R T) := by
  rw [Reading.toSnapshots, Listings.toSnapshots]
  split_ifs with hnil
  · rw [List.length_eq_zero_iff.mp hnil]
    rfl
  · rw [List.map_map]
    refine List.map_congr_left fun position hmem => ?_
    have hid : position.poolId ∈ positions.map PositionRow.poolId := List.mem_map_of_mem hmem
    refine worth_congr ?_ ?_
    · rw [Reading.poolSwapVolume, totals_apply, filter_mem_filter hid, FeeTables.swapped]
    · rw [Reading.poolFeesCollected, totals_apply, filter_mem_filter hid, sum_map_prod]
      rfl

/-! #### One more row -/

theorem swapped_collect (id : String) : (T.collect f).swapped R id = T.swapped R id := rfl

theorem collected0_collect (id : String) : (T.collect f).collected0 R id =
    T.collected0 R id + if f.poolId = id then |R.number f.amount0| else 0 := by
  rw [FeeTables.collected0, FeeTables.collect, List.filter_append, List.map_append,
    List.sum_append, List.filter_singleton]
  by_cases hid : f.poolId = id <;> simp [FeeTables.collected0, hid]

theorem collected1_collect (id : String) : (T.collect f).collected1 R id =
    T.collected1 R id + if f.poolId = id then |R.number f.amount1| else 0 := by
  rw [FeeTables.collected1, FeeTables.collect, List.filter_append, List.map_append,
    List.sum_append, List.filter_singleton]
  by_cases hid : f.poolId = id <;> simp [FeeTables.collected1, hid]

theorem collected1_nonneg (id : String) : 0 ≤ T.collected1 R id := by
  refine List.sum_nonneg fun a ha => ?_
  obtain ⟨f, -, rfl⟩ := List.mem_map.mp ha
  exact abs_nonneg _

/-- Adding to a share of something: it does not go up exactly if the share is not positive, or
nothing is added. -/
theorem max_mul_le_iff {c a s : ℚ} (hc : 0 ≤ c) (ha : 0 ≤ a) :
    max 0 ((c + a) * s) ≤ max 0 (c * s) ↔ s ≤ 0 ∨ a = 0 := by
  constructor
  · intro h
    by_contra hnot
    obtain ⟨hs, ha'⟩ := not_or.mp hnot
    have hs := not_le.mp hs
    have hpos : 0 < a * s := mul_pos (lt_of_le_of_ne ha (Ne.symm ha')) hs
    have hcs : 0 ≤ c * s := mul_nonneg hc hs.le
    have hle := (le_max_right _ _).trans h
    rw [max_eq_right hcs, add_mul] at hle
    linarith
  · rintro (hs | rfl)
    · rw [max_eq_left (mul_nonpos_of_nonneg_of_nonpos (add_nonneg hc ha) hs)]
      exact le_max_left _ _
    · rw [add_zero]

/-- Taking from a share of something: it does not go up exactly if the share is not negative,
nothing is taken, or no more is taken than is there. -/
theorem max_sub_mul_le_iff {t c a s : ℚ} (ha : 0 ≤ a) :
    max 0 (t * s - (c + a) * s) ≤ max 0 (t * s - c * s) ↔ 0 ≤ s ∨ a = 0 ∨ c + a ≤ t := by
  rw [← sub_mul, ← sub_mul]
  constructor
  · intro h
    by_contra hnot
    obtain ⟨hs, ha', hmore⟩ : s < 0 ∧ a ≠ 0 ∧ t < c + a := by
      simpa only [not_or, not_le] using hnot
    have hpos : 0 < (t - (c + a)) * s := mul_pos_of_neg_of_neg (by linarith) hs
    have hneg : a * s < 0 := mul_neg_of_pos_of_neg (lt_of_le_of_ne ha (Ne.symm ha')) hs
    rcases le_max_iff.mp ((le_max_right _ _).trans h) with hle | hle
    · linarith
    · have hsplit : (t - (c + a)) * s = (t - c) * s - a * s := by ring
      linarith
  · rintro (hs | rfl | hle)
    · exact max_le_max_left 0 (mul_le_mul_of_nonneg_right (by linarith) hs)
    · rw [add_zero]
    · rcases le_total 0 s with hs | hs
      · exact max_le_max_left 0 (mul_le_mul_of_nonneg_right (by linarith) hs)
      · rw [max_eq_left (mul_nonpos_of_nonneg_of_nonpos (by linarith) hs)]
        exact le_max_left _ _

/-- When collecting does not raise the uncollected fees of a position of the pool. -/
def Unraised (R : Reading) (T : FeeTables) (f : FeesCollected) (position : PositionRow) : Prop :=
  (R.orZero position.liquidity ≤ 0 ∨ R.number f.amount1 = 0) ∧
    (0 ≤ R.orZero position.liquidity ∨ R.number f.amount0 = 0 ∨
      T.collected0 R f.poolId + |R.number f.amount0| ≤
        T.swapped R f.poolId * ((T.state f.poolId).feeTier / 1000000))

/-- A share of liquidity has the sign of the position's. -/
theorem share_nonpos_iff {p l : ℚ} (hl : 0 < l) : p / l ≤ 0 ↔ p ≤ 0 :=
  (div_le_iff₀ hl).trans (by rw [zero_mul])

theorem share_nonneg_iff {p l : ℚ} (hl : 0 < l) : 0 ≤ p / l ↔ 0 ≤ p :=
  (le_div_iff₀ hl).trans (by rw [zero_mul])

/-- A position of another pool is not concerned. -/
theorem worthOf_collect_of_ne (hid : f.poolId ≠ position.poolId) :
    worthOf R (T.collect f) position = worthOf R T position := by
  have hworth : R.worth (T.collect f) = R.worth T := rfl
  rw [worthOf, hworth, worthOf]
  refine worth_congr (swapped_collect _) ?_
  rw [collected0_collect, collected1_collect, if_neg hid, if_neg hid, add_zero, add_zero]

theorem notRaised_iff (hid : f.poolId = position.poolId) :
    ((worthOf R (T.collect f) position).uncollectedFeesToken0 ≤
        (worthOf R T position).uncollectedFeesToken0 ∧
      (worthOf R (T.collect f) position).uncollectedFeesToken1 ≤
        (worthOf R T position).uncollectedFeesToken1) ↔
      (0 < R.orZero (T.state f.poolId).liquidity → Unraised R T f position) := by
  have hstate : (T.collect f).state = T.state := rfl
  simp only [worthOf, Reading.worth, hstate, swapped_collect, collected0_collect,
    collected1_collect, Unraised, ← hid, if_true]
  by_cases hpool : 0 < R.orZero (T.state f.poolId).liquidity
  · simp only [hpool, if_true, forall_const]
    rw [max_sub_mul_le_iff (abs_nonneg _), max_mul_le_iff (collected1_nonneg _) (abs_nonneg _),
      share_nonneg_iff hpool, share_nonpos_iff hpool, abs_eq_zero, abs_eq_zero, and_comm]
  · simp only [hpool, if_false, mul_zero, sub_zero, le_refl, and_self, false_imp_iff]

theorem forall₂_notRaised_iff :
    List.Forall₂ NotRaised (R.toSnapshots T positions) (R.toSnapshots (T.collect f) positions) ↔
      ∀ position ∈ positions,
        (worthOf R (T.collect f) position).uncollectedFeesToken0 ≤
            (worthOf R T position).uncollectedFeesToken0 ∧
          (worthOf R (T.collect f) position).uncollectedFeesToken1 ≤
            (worthOf R T position).uncollectedFeesToken1 := by
  have hworth : List.Forall₂ NotRaised (R.toSnapshots T positions)
      (R.toSnapshots (T.collect f) positions) ↔
        List.Forall₂ (fun before after => after.uncollectedFeesToken0 ≤
          before.uncollectedFeesToken0 ∧ after.uncollectedFeesToken1 ≤
            before.uncollectedFeesToken1)
          ((R.toSnapshots T positions).map (·.worth))
          ((R.toSnapshots (T.collect f) positions).map (·.worth)) := by
    rw [List.forall₂_map_left_iff, List.forall₂_map_right_iff]
    rfl
  rw [hworth, toSnapshots_worth, toSnapshots_worth, List.forall₂_map_left_iff,
    List.forall₂_map_right_iff, List.forall₂_same]

/-- **Collecting fees does not raise what is uncollected** exactly if this is so for each position
of the pool: the amount in token 1 is zero, or the position or the pool has no liquidity. Where
liquidity is negative, the amount in token 0 is zero or no more is collected than there was. -/
theorem collecting_iff (R : Reading) (T : FeeTables) (positions : List PositionRow)
    (f : FeesCollected) :
    List.Forall₂ NotRaised (R.toSnapshots T positions) (R.toSnapshots (T.collect f) positions) ↔
      ∀ position ∈ positions, position.poolId = f.poolId →
        0 < R.orZero (T.state f.poolId).liquidity → Unraised R T f position := by
  rw [forall₂_notRaised_iff]
  refine forall₂_congr fun position _ => ?_
  by_cases hid : position.poolId = f.poolId
  · rw [notRaised_iff hid.symm]
    exact ⟨fun h _ => h, fun h => h hid⟩
  · rw [worthOf_collect_of_ne (Ne.symm hid)]
    exact iff_of_true ⟨le_refl _, le_refl _⟩ fun h => absurd h hid

/-- Half of the liquidity of a pool in which nothing has happened. -/
def halfOfPool : FeeTables where
  db := ⟨fun _ => ⟨"CA", "CB"⟩, [], [], [], List.nodup_nil, List.nodup_nil⟩
  state _ := ⟨3000, "100", "0", none⟩
  feesCollected := []

def halfPosition : PositionRow := ⟨"1", "p", "G", "1", -60, 60, "50", 0, none⟩

/-- A text of digits as a number. -/
def digits (text : String) : ℚ := text.toList.foldl (fun n c => 10 * n + (c.toNat - 48 : ℕ)) 0

def wholeNumbers : Reading := ⟨digits, fun text => some (digits text)⟩

/-- Collecting 10 of token 1 leaves 5 uncollected where there was nothing. -/
theorem not_collecting_halfOfPool :
    ¬ ∀ (R : Reading) (T : FeeTables) (positions : List PositionRow) (f : FeesCollected),
      List.Forall₂ NotRaised (R.toSnapshots T positions)
        (R.toSnapshots (T.collect f) positions) := by
  intro h
  have hraised := h wholeNumbers halfOfPool [halfPosition] ⟨"2", "p", "G", "0", "10", 1⟩
  have hhalf := forall₂_notRaised_iff.mp hraised halfPosition (.head _)
  exact absurd hhalf.2 (by decide +kernel)

end Swyft.Positions
