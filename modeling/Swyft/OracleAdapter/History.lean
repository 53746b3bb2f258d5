import Swyft.OracleAdapter.Model
import Swyft.Lib.Ring
import Swyft.Lib.Trace

/-!
# What the oracle adapter remembers

The adapter is fed reports, each a price and a liquidity at a ledger time. The first report at a
new time appends an observation; later ones at the same time are dropped. An observation's
cumulative values charge each report's price and liquidity to the interval that *ends* at it, and
stop growing at `u128::MAX`.

This file says what a run of reports leaves in the buffer: the last `BUFFER_SIZE` observations of
the appended reports, in a ring.

## Main definitions

* `Report`, `appended` — the reports, and those among them that append
* `charged` — the sum over consecutive reports of the later one's value times the time between
* `observationsOf` — the observations of a list of appended reports
* `Tracks` — an adapter's storage is that of a list of appended reports

## Main results

* `Tracks.report` — one call
* `tracks_of_reports` — a run
-/

namespace Swyft

open Checked

/-- One call of `write_observation` by the pool. -/
structure Report where
  timestamp : ℕ
  sqrtPriceX96 : ℕ
  liquidity : ℕ
  deriving DecidableEq

/-- A report after `history`: dropped at the time of the newest one, appended otherwise. -/
def record (history : List Report) (r : Report) : List Report :=
  if (history.getLast?.map Report.timestamp) = some r.timestamp then history else history ++ [r]

/-- The reports that append an observation. -/
def appended (reports : List Report) : List Report := reports.foldl record []

/-- Each report's value, held over the time since the report before it. -/
def charged (value : Report → ℕ) : List Report → ℕ
  | r :: r' :: rest =>
    value r' * (r'.timestamp - r.timestamp) + charged value (r' :: rest)
  | _ => 0

theorem charged_append_singleton (value : Report → ℕ) {history : List Report} {last : Report}
    (h : history.getLast? = some last) (r : Report) :
    charged value (history ++ [r])
      = charged value history + value r * (r.timestamp - last.timestamp) := by
  induction history with
  | nil => cases h
  | cons a rest ih =>
    cases rest with
    | nil =>
      obtain rfl : a = last := by simpa using h
      simp [charged]
    | cons b rest =>
      rw [List.getLast?_cons_cons] at h
      have ih := ih h
      simp only [List.cons_append, charged] at ih ⊢
      rw [ih]
      omega

/-- Charges split at any report. -/
theorem charged_take_add_drop (value : Report → ℕ) {history : List Report} {s : ℕ}
    (hs : s < history.length) :
    charged value (history.take (s + 1)) + charged value (history.drop s)
      = charged value history := by
  induction s generalizing history with
  | zero =>
    cases history with
    | nil => cases hs
    | cons a rest => simp [charged]
  | succ s ih =>
    cases history with
    | nil => cases hs
    | cons a rest =>
      rw [List.length_cons] at hs
      have ih := @ih rest (by omega)
      cases rest with
      | nil => simp at hs
      | cons b rest =>
        simp only [List.take_succ_cons, List.drop_succ_cons, charged] at ih ⊢
        omega

/-! ### The observations -/

/-- The observation that the last of a list of appended reports stores. -/
def observationOf (history : List Report) : Observation where
  timestamp := (history.getLast?.map Report.timestamp).getD 0
  cumulativeSqrtPrice := min (charged Report.sqrtPriceX96 history) u128Max
  cumulativeLiquidity := min (charged Report.liquidity history) u128Max

/-- The observations of a list of appended reports. -/
def observationsOf (history : List Report) : List Observation :=
  (List.range history.length).map fun j => observationOf (history.take (j + 1))

@[simp] theorem length_observationsOf (history : List Report) :
    (observationsOf history).length = history.length := by
  rw [observationsOf, List.length_map, List.length_range]

theorem observationsOf_getElem? (history : List Report) {j : ℕ} (hj : j < history.length) :
    (observationsOf history)[j]? = some (observationOf (history.take (j + 1))) := by
  rw [observationsOf, List.getElem?_map, List.getElem?_range hj]
  rfl

theorem observationsOf_append (history : List Report) (r : Report) :
    observationsOf (history ++ [r]) =
      observationsOf history ++ [observationOf (history ++ [r])] := by
  rw [observationsOf, List.length_append, List.length_singleton, List.range_succ, List.map_append,
    observationsOf]
  congr 1
  · refine List.map_congr_left fun j hj => ?_
    rw [List.take_append_of_le_length (by have := List.mem_range.mp hj; omega)]
  · rw [List.map_singleton, List.take_of_length_le (by simp)]

theorem observationOf_timestamp {history : List Report} {j : ℕ} {r : Report}
    (h : history[j]? = some r) :
    (observationOf (history.take (j + 1))).timestamp = r.timestamp := by
  obtain ⟨hj, rfl⟩ := List.getElem?_eq_some_iff.mp h
  rw [observationOf, List.take_succ_eq_append_getElem hj, List.getLast?_concat]
  rfl

/-! ### The storage -/

namespace OracleAdapter

/-- The adapter's storage is what the appended reports `history` leave behind. -/
structure Tracks (o : OracleAdapter) (history : List Report) : Prop where
  initialized : o.initialized = true
  writeIndex : o.writeIndex = history.length % bufferSize
  count : o.observationCount = min history.length bufferSize
  slots : Ring.Holds bufferSize o.obs (observationsOf history)
  increasing : history.Pairwise fun r r' => r.timestamp < r'.timestamp

/-- The pool reports. -/
def Reported (o : OracleAdapter) (r : Report) (o' : OracleAdapter) : Prop :=
  o.writeObservation o.pool r.timestamp r.sqrtPriceX96 r.liquidity = .ok o'

/-- A run of reports. -/
abbrev Reports := Trace Reported

/-- A deployed and initialised adapter has no history. -/
theorem tracks_nil {pool : Address} {o : OracleAdapter}
    (h : (OracleAdapter.deployed pool).initializeOracle pool = .ok o) : o.Tracks [] := by
  simp only [initializeOracle, deployed, bind_eq_ok, require_eq_ok, exists_const, pure_eq_ok] at h
  obtain ⟨-, rfl⟩ := h
  exact ⟨rfl, rfl, rfl, Ring.Holds.nil, List.Pairwise.nil⟩

theorem bufferSize_pos : 0 < bufferSize := by decide

/-- The newest observation. -/
theorem Tracks.newest {o : OracleAdapter} {history : List Report} (h : o.Tracks history)
    (hne : history ≠ []) : o.obs (prevIndex o.writeIndex) = some (observationOf history) := by
  have hpos : 0 < history.length := List.length_pos_iff.mpr hne
  rw [prevIndex, h.writeIndex, Ring.prev_slot bufferSize_pos hpos,
    h.slots _ (by rw [length_observationsOf]; omega)
      (by rw [length_observationsOf]; have := bufferSize_pos; omega),
    observationsOf_getElem? _ (by omega), Nat.sub_add_cancel hpos, List.take_length]

/-- The append of `write_observation`, on the ring. -/
theorem Tracks.append {o : OracleAdapter} {history : List Report} (h : o.Tracks history)
    {r : Report} (hlater : ∀ x ∈ history, x.timestamp < r.timestamp) :
    (o.append (observationOf (history ++ [r]))).Tracks (history ++ [r]) where
  initialized := h.initialized
  writeIndex := by
    simp only [OracleAdapter.append, h.writeIndex, List.length_append, List.length_singleton]
    rw [Nat.mod_add_mod]
  count := by
    simp only [OracleAdapter.append, h.count, List.length_append, List.length_singleton, satAdd,
      bufferSize]
    omega
  slots := by
    have := h.slots.append (observationOf (history ++ [r]))
    rw [length_observationsOf, ← h.writeIndex, ← observationsOf_append] at this
    exact this
  increasing := by
    rw [List.pairwise_append]
    refine ⟨h.increasing, List.pairwise_singleton _ _, fun x hx y hy => ?_⟩
    rw [List.mem_singleton.mp hy]
    exact hlater x hx

/-- **One report.** -/
theorem Tracks.report {o o' : OracleAdapter} {history : List Report} (h : o.Tracks history)
    {r : Report} (hr : Reported o r o') : o'.Tracks (record history r) := by
  simp only [Reported, writeObservation, bind_eq_ok, require_eq_ok, exists_const] at hr
  obtain ⟨-, -, hr⟩ := hr
  split at hr
  case isTrue h0 =>
    obtain rfl : history = [] := by
      have hcount := h.count
      rw [h0, bufferSize] at hcount
      exact List.length_eq_zero_iff.mp (by omega)
    obtain rfl := pure_eq_ok.mp hr
    exact h.append (by rintro x ⟨⟩)
  case isFalse h0 =>
    have hne : history ≠ [] := by
      rintro rfl
      exact h0 h.count
    obtain ⟨last, hlast⟩ : ∃ last, history.getLast? = some last :=
      ⟨_, List.getLast?_eq_some_getLast hne⟩
    have hlastTs : (observationOf history).timestamp = last.timestamp := by
      rw [observationOf, hlast]
      rfl
    simp only [bind_eq_ok, expect_eq_ok, require_eq_ok, exists_const] at hr
    obtain ⟨prev, hprev, hle, hr⟩ := hr
    obtain rfl : observationOf history = prev :=
      Option.some.inj ((h.newest hne).symm.trans hprev)
    rw [hlastTs] at hle hr
    split at hr
    case isTrue hsame =>
      obtain rfl := pure_eq_ok.mp hr
      rw [record, if_pos (by rw [hlast, hsame]; rfl)]
      exact h
    case isFalse hnew =>
      simp only [bind_eq_ok, subU64_eq_ok, pure_eq_ok] at hr
      obtain ⟨_, ⟨-, rfl⟩, rfl⟩ := hr
      rw [record, if_neg (by rw [hlast]; simpa using Ne.symm hnew)]
      have hobs : observationOf (history ++ [r]) =
          ⟨r.timestamp,
            satAdd 128 (observationOf history).cumulativeSqrtPrice
              (satMul 128 r.sqrtPriceX96 (r.timestamp - last.timestamp)),
            satAdd 128 (observationOf history).cumulativeLiquidity
              (satMul 128 r.liquidity (r.timestamp - last.timestamp))⟩ := by
        rw [observationOf, List.getLast?_concat, charged_append_singleton _ hlast,
          charged_append_singleton _ hlast, observationOf, satMul, satMul, u128Max, satAdd_min,
          satAdd_min]
        rfl
      rw [← hobs]
      refine h.append fun x hx => ?_
      obtain ⟨init, rfl⟩ := List.getLast?_eq_some_iff.mp hlast
      rcases List.mem_append.mp hx with hx | hx
      · have := (List.pairwise_append.mp h.increasing).2.2 x hx last (List.mem_singleton_self _)
        omega
      · rw [List.mem_singleton.mp hx]
        omega

/-- **A run of reports.** -/
theorem Tracks.reports {o o' : OracleAdapter} {history rs : List Report} (h : o.Tracks history)
    (hr : Reports o rs o') : o'.Tracks (rs.foldl record history) := by
  induction hr generalizing history with
  | nil => exact h
  | cons hstep _ ih => exact ih (h.report hstep)

/-- What a run from deployment leaves behind. -/
theorem tracks_of_reports {pool : Address} {o o' : OracleAdapter} {rs : List Report}
    (hinit : (OracleAdapter.deployed pool).initializeOracle pool = .ok o)
    (hr : Reports o rs o') : o'.Tracks (appended rs) :=
  (tracks_nil hinit).reports hr

end OracleAdapter

end Swyft
