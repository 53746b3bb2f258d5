import Swyft.OracleAdapter.Twap
import Mathlib.Algebra.Order.Ring.Nat

/-!
# The buffer, read in order

`Tracks` says slot by slot what a run of reports leaves behind. Here the same is read off as a list:
from the oldest slot on, `ObservationCount` slots hold the last observations of the run, in the
order in which they were appended, and no other slot was ever written.

## Main results

* `Tracks.ordered` — what the observations of a run are ordered by
* `buffer_holds_last_observations` — count, index and slots after any run of reports
-/

namespace Swyft

namespace OracleAdapter

open Checked

variable {o o' : OracleAdapter}

/-- The stored slots in logical order: from slot 0 while the buffer fills, from the write index once
it is full. -/
def inOrder (o : OracleAdapter) : List (Option Observation) :=
  (List.range o.observationCount).map fun j =>
    o.obs ((oldestIndex o.observationCount o.writeIndex + j) % bufferSize)

/-- The slots below the count are written, and no others. -/
def Filled (o : OracleAdapter) : Prop := ∀ slot, (o.obs slot).isSome ↔ slot < o.observationCount

/-- A report appends one observation or none. -/
theorem Reported.cases {r : Report} (h : Reported o r o') :
    o' = o ∨ ∃ obs, o' = o.append obs := by
  simp only [Reported, writeObservation, bind_eq_ok, require_eq_ok, exists_const] at h
  obtain ⟨-, -, h⟩ := h
  split at h
  case isTrue => exact .inr ⟨_, (pure_eq_ok.mp h).symm⟩
  case isFalse =>
    simp only [bind_eq_ok, expect_eq_ok, require_eq_ok, exists_const] at h
    obtain ⟨prev, -, -, h⟩ := h
    split at h
    case isTrue => exact .inl (pure_eq_ok.mp h).symm
    case isFalse =>
      obtain ⟨elapsed, -, h⟩ := bind_eq_ok.mp h
      exact .inr ⟨_, (pure_eq_ok.mp h).symm⟩

theorem Filled.report {history : List Report} {r : Report} (h : o.Filled) (ht : o.Tracks history)
    (hr : Reported o r o') : o'.Filled := by
  rcases hr.cases with rfl | ⟨obs, rfl⟩
  · exact h
  · intro slot
    have hindex := ht.writeIndex
    have hcount := ht.count
    have hmod := Nat.mod_lt history.length bufferSize_pos
    have hsmall : history.length < bufferSize → history.length % bufferSize = history.length :=
      Nat.mod_eq_of_lt
    have hcap : bufferSize < 2 ^ 32 - 1 := by decide
    have hold := h slot
    simp only [OracleAdapter.append, Function.update_apply, satAdd]
    by_cases hslot : slot = o.writeIndex
    · rw [if_pos hslot]
      simp only [Option.isSome_some, true_iff]
      omega
    · rw [if_neg hslot, hold]
      omega

theorem Filled.reports {history rs : List Report} (h : o.Filled) (ht : o.Tracks history)
    (hr : Reports o rs o') : o'.Filled := by
  induction hr generalizing history with
  | nil => exact h
  | cons hstep _ ih => exact ih (h.report ht hstep) (ht.report hstep)

/-- Longer histories have accumulated more. -/
theorem charged_take_mono (value : Report → ℕ) {history : List Report} {i j : ℕ} (hij : i ≤ j)
    (hj : j < history.length) :
    charged value (history.take (i + 1)) ≤ charged value (history.take (j + 1)) := by
  have hlt : i < (history.take (j + 1)).length := by
    rw [List.length_take]
    omega
  have hsplit := charged_take_add_drop value hlt
  rw [List.take_take, Nat.min_eq_left (by omega)] at hsplit
  omega

/-- Times increase strictly and cumulative values never fall. -/
theorem Tracks.ordered {history : List Report} (h : o.Tracks history) :
    (observationsOf history).Pairwise fun x y => x.timestamp < y.timestamp ∧
      x.cumulativeSqrtPrice ≤ y.cumulativeSqrtPrice ∧
      x.cumulativeLiquidity ≤ y.cumulativeLiquidity := by
  rw [List.pairwise_iff_getElem]
  intro i j hi hj hij
  rw [length_observationsOf] at hi hj
  simp only [observationsOf, List.getElem_map, List.getElem_range]
  refine ⟨?_, ?_, ?_⟩
  · rw [observationOf_timestamp (List.getElem?_eq_getElem hi),
      observationOf_timestamp (List.getElem?_eq_getElem hj)]
    exact h.time_lt hij (List.getElem?_eq_getElem hi) (List.getElem?_eq_getElem hj)
  · exact min_le_min (charged_take_mono _ hij.le hj) le_rfl
  · exact min_le_min (charged_take_mono _ hij.le hj) le_rfl

/-- **The ring buffer after any run of reports.** With `n` observations appended, the count is `n`
capped at the buffer's size and the write index is `n` modulo it; the slots read in logical order
are the last observations appended, and no other slot was written. Times increase strictly and
cumulative values never fall. -/
theorem buffer_holds_last_observations {pool : Address} {rs : List Report}
    (hinit : (OracleAdapter.deployed pool).initializeOracle pool = .ok o)
    (hr : Reports o rs o') :
    o'.observationCount = min (appended rs).length 65535 ∧
      o'.writeIndex = (appended rs).length % 65535 ∧
      o'.inOrder = ((observationsOf (appended rs)).drop
        ((appended rs).length - min (appended rs).length 65535)).map some ∧
      (∀ slot, (o'.obs slot).isSome ↔ slot < o'.observationCount) ∧
      (observationsOf (appended rs)).Pairwise fun x y => x.timestamp < y.timestamp ∧
        x.cumulativeSqrtPrice ≤ y.cumulativeSqrtPrice ∧
        x.cumulativeLiquidity ≤ y.cumulativeLiquidity := by
  have h := tracks_of_reports hinit hr
  have hfilled : o.Filled := by
    simp only [initializeOracle, deployed, bind_eq_ok, require_eq_ok, exists_const,
      pure_eq_ok] at hinit
    obtain ⟨-, rfl⟩ := hinit
    intro slot
    simp
  refine ⟨h.count, h.writeIndex, ?_, hfilled.reports (tracks_nil hinit) hr, h.ordered⟩
  have hread := Ring.Holds.read h.slots
  rw [length_observationsOf] at hread
  rw [inOrder, oldestIndex, h.count, h.writeIndex, Nat.mod_mod, Ring.oldest_slot]
  exact hread

/-- Three reports of which the second is in the ledger of the first. -/
theorem buffer_after_dropped_report :
    ∃ o', Reports ⟨true, ⟨0⟩, 0, 0, fun _ => none⟩
        [⟨1000, 50, 1⟩, ⟨1000, 70, 1⟩, ⟨1600, 60, 2⟩] o' ∧
      o'.observationCount = 2 ∧ o'.writeIndex = 2 ∧
      o'.inOrder = [some ⟨1000, 0, 0⟩, some ⟨1600, 36000, 1200⟩] := by
  have hrun : Yields (reportAll ⟨true, ⟨0⟩, 0, 0, fun _ => none⟩
      [⟨1000, 50, 1⟩, ⟨1000, 70, 1⟩, ⟨1600, 60, 2⟩]) fun _ => True := by decide
  obtain ⟨o', ho, -⟩ := yields_iff.mp hrun
  have hr := reports_of_reportAll ho
  have hinit : (OracleAdapter.deployed ⟨0⟩).initializeOracle ⟨0⟩
      = .ok ⟨true, ⟨0⟩, 0, 0, fun _ => none⟩ := rfl
  obtain ⟨hcount, hindex, horder, -, -⟩ := buffer_holds_last_observations hinit hr
  exact ⟨o', hr, hcount, hindex, horder⟩

end OracleAdapter

end Swyft
