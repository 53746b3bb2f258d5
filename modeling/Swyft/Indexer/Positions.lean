import Swyft.Indexer.Interference
import Mathlib.Algebra.Ring.Int.Defs
import Mathlib.Data.List.Induction

/-!
# A position's row and the position

The pools publish what an addition adds to a position and what a removal takes from it. The
handlers of `position.minted` and `position.burned` write that amount over the row's liquidity, and
a removal of the amount zero closes the row for good. So the row has the last amount, where the
position has the sum of all.

## Main results

* `processAll_status` — what the row says after a history
* `position_matches_iff` — when that is the position's liquidity and whether it is empty
-/

namespace Swyft.Indexer

variable {feeOf : String → ℤ → String} {poolId tokenId : String} {t : Tables}

/-- A change of one position as the pools publish it, with the job it comes to. -/
structure Change (poolId tokenId : String) where
  removes : Bool
  amount : ℕ
  data : PositionJobData
  of_pool : data.poolId = poolId
  of_token : data.tokenId = tokenId
  published : data.liquidity = toString (amount : ℤ)
  accepted : guardEmptyData (.positionMinted data) = true

def Change.event (c : Change poolId tokenId) : Event :=
  if c.removes then .positionBurned c.data else .positionMinted c.data

/-- The liquidity added less the liquidity removed. -/
def net (history : List (Change poolId tokenId)) : ℤ :=
  (history.map fun c => if c.removes then -(c.amount : ℤ) else c.amount).sum

/-- The row has the position's liquidity, and is closed when there is none. -/
def Matches (history : List (Change poolId tokenId)) (row : Option PositionRow) : Prop :=
  ∀ r ∈ row, r.liquidity = toString (net history) ∧ (r.closed = true ↔ net history = 0)

/-- A removal of nothing. -/
def Change.closes (c : Change poolId tokenId) : Bool := c.removes && c.amount = 0

/-! ### What the handlers do -/

theorem upsertPosition_status {d : PositionJobData} {closes : Bool}
    (hpool : (t.pools d.poolId).isSome) :
    ((upsertPosition t d closes).positions (d.poolId, d.tokenId)).map PositionRow.status =
      some (d.liquidity, ((t.positions (d.poolId, d.tokenId)).map PositionRow.closed).getD false
        || closes) := by
  simp only [upsertPosition]
  split
  case h_1 hpool' => simp [hpool'] at hpool
  case h_2 =>
    cases t.positions (d.poolId, d.tokenId) <;> simp [positionRow, PositionRow.status]

/-- A change overwrites the liquidity, and closes the row if it removes nothing. -/
theorem process_change (feeOf : String → ℤ → String) (c : Change poolId tokenId)
    (hpool : (t.pools poolId).isSome) :
    ((process feeOf t c.event).positions (poolId, tokenId)).map PositionRow.status =
        some (toString (c.amount : ℤ),
          ((t.positions (poolId, tokenId)).map PositionRow.closed).getD false || c.closes) ∧
      (process feeOf t c.event).pools = t.pools := by
  obtain ⟨removes, amount, d, rfl, rfl, hpublished, haccepted⟩ := c
  obtain ⟨hpools, -, hpositions⟩ := storeEvent_same t (Change.event
    (⟨removes, amount, d, rfl, rfl, hpublished, haccepted⟩ : Change d.poolId d.tokenId))
  have hzero : (d.liquidity = "0") ↔ amount = 0 := by
    rw [hpublished]
    exact Js.toString_natCast_inj (b := 0)
  cases removes with
  | false =>
    have hguard : guardEmptyData (.positionMinted d) = true := haccepted
    simp only [process, Change.event, Bool.false_eq_true, if_false, if_pos hguard, projectEvent]
    simp only [Change.event, Bool.false_eq_true, if_false] at hpools hpositions
    rw [upsertPosition_status (by rwa [hpools]), hpositions, (upsertPosition_same _ _ _).1, hpools,
      hpublished]
    exact ⟨rfl, rfl⟩
  | true =>
    have hguard : guardEmptyData (.positionBurned d) = true := haccepted
    simp only [process, Change.event, if_true, if_pos hguard, projectEvent]
    simp only [Change.event, if_true] at hpools hpositions
    rw [upsertPosition_status (by rwa [hpools]), hpositions, (upsertPosition_same _ _ _).1, hpools]
    simp only [hzero]
    rw [hpublished]
    exact ⟨rfl, trivial⟩

/-- **What the row says after a history.** The last amount; and closed after any removal of
nothing. -/
theorem processAll_status (feeOf : String → ℤ → String) (hpool : (t.pools poolId).isSome)
    (hnew : t.positions (poolId, tokenId) = none) (history : List (Change poolId tokenId)) :
    ((processAll feeOf t (history.map Change.event)).positions (poolId, tokenId)).map
        PositionRow.status =
        history.getLast?.map (fun last => (toString (last.amount : ℤ), history.any Change.closes)) ∧
      (processAll feeOf t (history.map Change.event)).pools = t.pools := by
  induction history using List.reverseRecOn with
  | nil => simp [processAll, hnew]
  | append_singleton history last ih =>
    obtain ⟨hstatus, hpools⟩ := ih
    rw [List.map_append, processAll_append]
    generalize processAll feeOf t (history.map Change.event) = t' at hstatus hpools
    obtain ⟨hlast, hpools'⟩ := process_change (t := t') feeOf last (by rwa [hpools])
    have hclosed : ((t'.positions (poolId, tokenId)).map PositionRow.closed).getD false
        = history.any Change.closes := by
      have hmap : (t'.positions (poolId, tokenId)).map PositionRow.closed
          = ((t'.positions (poolId, tokenId)).map PositionRow.status).map Prod.snd := by
        rw [Option.map_map]
        rfl
      rw [hmap, hstatus]
      cases hget : history.getLast? with
      | none =>
        obtain rfl := List.getLast?_eq_none_iff.mp hget
        rfl
      | some _ => rfl
    refine ⟨?_, hpools'.trans hpools⟩
    rw [hclosed] at hlast
    refine hlast.trans ?_
    simp

/-! ### When the row matches -/

/-- **When the row matches the position.** The last amount happens to be the liquidity, and the
position is empty exactly if something was ever removed as nothing. -/
theorem position_matches_iff (feeOf : String → ℤ → String) (hpool : (t.pools poolId).isSome)
    (hnew : t.positions (poolId, tokenId) = none) (history : List (Change poolId tokenId)) :
    Matches history ((processAll feeOf t (history.map Change.event)).positions (poolId, tokenId)) ↔
      ∀ last ∈ history.getLast?, (last.amount : ℤ) = net history ∧
        ((∃ c ∈ history, c.removes = true ∧ c.amount = 0) ↔ net history = 0) := by
  have hstatus := (processAll_status feeOf hpool hnew history).1
  have hcloses : history.any Change.closes = true ↔
      ∃ c ∈ history, c.removes = true ∧ c.amount = 0 := by
    simp [List.any_eq_true, Change.closes]
  rw [Matches]
  cases hrow : (processAll feeOf t (history.map Change.event)).positions (poolId, tokenId) with
  | none =>
    cases hget : history.getLast? with
    | none => simp
    | some last => simp [hrow, hget] at hstatus
  | some r =>
    cases hget : history.getLast? with
    | none => simp [hrow, hget] at hstatus
    | some last =>
      rw [hrow, hget] at hstatus
      obtain ⟨hliquidity, hclosed⟩ := Prod.mk.inj (Option.some.inj hstatus)
      have hclosed : r.closed = true ↔ ∃ c ∈ history, c.removes = true ∧ c.amount = 0 := by
        rw [← hcloses, ← hclosed]
      have hliquidity : r.liquidity = toString (net history) ↔ (last.amount : ℤ) = net history := by
        rw [hliquidity, Js.toString_natCast_eq_iff]
      simp only [Option.mem_some_iff, forall_eq', hliquidity, hclosed]

/-- A change of position 1 of pool P. -/
def sampleChange (removes : Bool) (amount : ℕ) : Change "P" "1" where
  removes
  amount
  data := ⟨"1", none, "P", "1", "O", -60, 60, toString (amount : ℤ), "1", "1"⟩
  of_pool := rfl
  of_token := rfl
  published := rfl
  accepted := by
    have htext : (amount : ℤ).repr ≠ "" := Nat.repr_ne_empty
    simp [guardEmptyData, Event.emptyFields, Event.texts, htext]

/-- Pool P and nothing else. -/
def onePool : Tables := process sampleFee .empty samplePool

/-- Half of a position is removed: the amount removed is what is left. -/
theorem position_matches_half_removed :
    Matches [sampleChange false 10, sampleChange true 5]
      ((processAll sampleFee onePool ([sampleChange false 10, sampleChange true 5].map
        Change.event)).positions ("P", "1")) :=
  (position_matches_iff sampleFee (by decide) (by decide) _).mpr (by decide)

/-- All of a position is removed: the row keeps the amount removed and stays open. -/
theorem position_differs_when_removed :
    ¬ ∀ feeOf (t : Tables) (history : List (Change "P" "1")), (t.pools "P").isSome →
      t.positions ("P", "1") = none →
      Matches history ((processAll feeOf t (history.map Change.event)).positions ("P", "1")) := by
  intro h
  have hrow : (processAll sampleFee onePool ([sampleChange false 10, sampleChange true 10].map
      Change.event)).positions ("P", "1") = some ⟨"O", -60, 60, "10", false⟩ := by decide
  have hmatches := h sampleFee onePool [sampleChange false 10, sampleChange true 10]
    (by decide) (by decide) _ hrow
  exact absurd hmatches.1 (by decide)

end Swyft.Indexer
