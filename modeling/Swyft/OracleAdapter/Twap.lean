import Swyft.OracleAdapter.History

/-!
# The time-weighted average

`get_twap` takes the newest observation, searches the ring for the newest one at least a window
older, and divides the difference of their cumulative prices by the time between them.

Two things in it are by design and not what "the average of the price in force over the window"
would say. The interval between two observations is charged with the price reported at its *end*,
as the adapter's tests expect of a price "for the entire window". And the average starts at the
observation at or just before the start of the window, so it covers the window and whatever of the
interval before it belongs to the same observation.

## Main results

* `searchLoop_spec` — the binary search over the wrapped ring finds the newest observation at or
  before the target
* `twap_eq_charged_average` — what `get_twap` returns, for every run of reports and every window
* `twap_is_not_price_in_force` — two reports for which it is not the price that was in force
-/

namespace Swyft

namespace OracleAdapter

open Checked

variable {o : OracleAdapter} {history : List Report}

/-- Reading the ring at logical position `j`, counted from the oldest observation. -/
theorem Tracks.read (h : o.Tracks history) {j : ℕ} (hj : j < min history.length bufferSize) :
    ∃ r, history[history.length - min history.length bufferSize + j]? = some r ∧
      o.obs ((history.length - min history.length bufferSize + j) % bufferSize)
        = some (observationOf
          (history.take (history.length - min history.length bufferSize + j + 1))) ∧
      (observationOf (history.take
        (history.length - min history.length bufferSize + j + 1))).timestamp = r.timestamp := by
  have hlt : history.length - min history.length bufferSize + j < history.length := by omega
  refine ⟨_, List.getElem?_eq_getElem hlt, ?_,
    observationOf_timestamp (List.getElem?_eq_getElem hlt)⟩
  rw [h.slots _ (by rw [length_observationsOf]; exact hlt)
    (by rw [length_observationsOf]; omega), observationsOf_getElem? _ hlt]

/-- Later reports have later times. -/
theorem Tracks.time_lt (h : o.Tracks history) {i j : ℕ} {r r' : Report} (hij : i < j)
    (hr : history[i]? = some r) (hr' : history[j]? = some r') : r.timestamp < r'.timestamp := by
  obtain ⟨hi, rfl⟩ := List.getElem?_eq_some_iff.mp hr
  obtain ⟨hj, rfl⟩ := List.getElem?_eq_some_iff.mp hr'
  exact List.pairwise_iff_getElem.mp h.increasing i j hi hj hij

/-- **The binary search.** The loop keeps everything below `lo` at or before the target and
everything above `hi` after it, with `result` the slot just below `lo`; so it ends at the newest
observation at or before the target, if the oldest is. -/
theorem searchLoop_spec (h : o.Tracks history) {off count target : ℕ}
    (hcount : count = min history.length bufferSize) (hoff : off = history.length - count) :
    ∀ {fuel lo hi result res : ℕ}, hi + 1 ≤ fuel + lo → hi < count → lo ≤ hi + 1 →
      (∀ j r, j < lo → history[off + j]? = some r → r.timestamp ≤ target) →
      (∀ j r, hi < j → history[off + j]? = some r → target < r.timestamp) →
      result = (off + (lo - 1)) % bufferSize →
      searchLoop o (off % bufferSize) target fuel lo hi result = .ok res →
      ∃ m, m < count ∧ res = (off + m) % bufferSize ∧
        (∀ j r, m < j → history[off + j]? = some r → target < r.timestamp) ∧
        ∀ first r, history[off]? = some first → first.timestamp ≤ target →
          history[off + m]? = some r → r.timestamp ≤ target := by
  subst hcount hoff
  -- where the bounds have met, the answer is the position just below `lo`
  have hdone : ∀ {lo hi result : ℕ}, hi < min history.length bufferSize → hi < lo → lo ≤ hi + 1 →
      (∀ j r, j < lo →
        history[history.length - min history.length bufferSize + j]? = some r →
        r.timestamp ≤ target) →
      (∀ j r, hi < j →
        history[history.length - min history.length bufferSize + j]? = some r →
        target < r.timestamp) →
      result = (history.length - min history.length bufferSize + (lo - 1)) % bufferSize →
      ∃ m, m < min history.length bufferSize ∧
        result = (history.length - min history.length bufferSize + m) % bufferSize ∧
        (∀ j r, m < j →
          history[history.length - min history.length bufferSize + j]? = some r →
          target < r.timestamp) ∧
        ∀ first r, history[history.length - min history.length bufferSize]? = some first →
          first.timestamp ≤ target →
          history[history.length - min history.length bufferSize + m]? = some r →
          r.timestamp ≤ target := by
    intro lo hi result hhi hlt hlo hbelow habove hres
    exact ⟨lo - 1, by omega, hres, fun j r hj hr => habove j r (by omega) hr,
      fun _ r _ _ hr => hbelow (lo - 1) r (by omega) hr⟩
  intro fuel
  induction fuel with
  | zero =>
    intro lo hi result res hfuel hhi hlo hbelow habove hres hrun
    obtain rfl := pure_eq_ok.mp hrun
    exact hdone hhi (by omega) hlo hbelow habove hres
  | succ fuel ih =>
    intro lo hi result res hfuel hhi hlo hbelow habove hres hrun
    simp only [searchLoop] at hrun
    split at hrun
    case isFalse hgt =>
      obtain rfl := pure_eq_ok.mp hrun
      exact hdone hhi (by omega) hlo hbelow habove hres
    case isTrue hle =>
      have hmid : lo + (hi - lo) / 2 ≤ hi := by omega
      have hmid' : lo ≤ lo + (hi - lo) / 2 := Nat.le_add_right _ _
      generalize lo + (hi - lo) / 2 = mid at hrun hmid hmid'
      obtain ⟨r, hr, hread, htime⟩ := h.read (j := mid) (by omega)
      simp only [Ring.logical_slot, hread, expect, getOr, ok_bind, htime] at hrun
      split at hrun
      case isTrue hbefore =>
        refine ih (by omega) hhi (by omega) (fun j r' hj hr' => ?_) habove
          (by rw [Nat.add_sub_cancel]) hrun
        rcases Nat.lt_or_ge j mid with hjm | hjm
        · exact Nat.le_trans (Nat.le_of_lt (h.time_lt (by omega) hr' hr)) hbefore
        · obtain rfl : j = mid := by omega
          obtain rfl := Option.some.inj (hr.symm.trans hr')
          exact hbefore
      case isFalse hafter =>
        have hlater : ∀ j r', mid ≤ j →
            history[history.length - min history.length bufferSize + j]? = some r' →
            target < r'.timestamp := by
          intro j r' hj hr'
          rcases Nat.lt_or_ge mid j with hjm | hjm
          · exact Nat.lt_trans (Nat.lt_of_not_le hafter) (h.time_lt (by omega) hr hr')
          · obtain rfl : j = mid := by omega
            obtain rfl := Option.some.inj (hr.symm.trans hr')
            exact Nat.lt_of_not_le hafter
        split at hrun
        case isTrue h0 =>
          obtain rfl := pure_eq_ok.mp hrun
          obtain rfl : lo = 0 := by omega
          refine ⟨0, by omega, hres, fun j r' hj hr' => hlater j r' (by omega) hr', ?_⟩
          intro first r' hfirst hle' hr'
          rw [Nat.add_zero] at hr'
          obtain rfl := Option.some.inj (hfirst.symm.trans hr')
          exact hle'
        case isFalse h0 =>
          exact ih (by omega) (by omega) (by omega) hbelow
            (fun j r' hj hr' => hlater j r' (by omega) hr') hres hrun

/-- `get_twap` on the storage a history of appended reports leaves behind. -/
theorem Tracks.getTwap (h : o.Tracks history) {now window v : ℕ}
    (hv : o.getTwap now window = .ok v) :
    ∃ s first last, history[s]? = some first ∧ history.getLast? = some last ∧
      first.timestamp ≤ last.timestamp - window ∧
      (∀ j r, s < j → history[j]? = some r → last.timestamp - window < r.timestamp) ∧
      first.timestamp < last.timestamp ∧
      v = (min (charged Report.sqrtPriceX96 history) u128Max
          - min (charged Report.sqrtPriceX96 (history.take (s + 1))) u128Max)
        / (last.timestamp - first.timestamp) := by
  simp only [OracleAdapter.getTwap, bind_eq_ok, require_eq_ok, exists_const, expect_eq_ok,
    subU64_eq_ok, divU128_eq_ok] at hv
  obtain ⟨-, hcount, newest, hnewest, -, oldest, holdest, hwindow, start, hstart, _, ⟨-, rfl⟩,
    hne, -, rfl⟩ := hv
  have hlen : 2 ≤ history.length := by
    have := h.count
    omega
  have hne' : history ≠ [] := by
    rintro rfl
    simp at hlen
  obtain ⟨last, hlast⟩ : ∃ last, history.getLast? = some last :=
    ⟨_, List.getLast?_eq_some_getLast hne'⟩
  obtain rfl := Option.some.inj ((h.newest hne').symm.trans hnewest)
  have htime : (observationOf history).timestamp = last.timestamp := by
    rw [observationOf, hlast]
    rfl
  have hoff : oldestIndex o.observationCount o.writeIndex
      = (history.length - min history.length bufferSize) % bufferSize := by
    rw [oldestIndex, h.count, h.writeIndex, Nat.mod_mod, Ring.oldest_slot]
  obtain ⟨r₀, hr₀, hread₀, htime₀⟩ := h.read (j := 0) (by
    have := h.count
    omega)
  rw [Nat.add_zero] at hr₀ hread₀ htime₀
  rw [hoff, hread₀] at holdest
  obtain rfl := Option.some.inj holdest
  rw [htime₀, htime, satSub] at hwindow
  simp only [binarySearchObservation, hoff, bind_eq_ok, subU64_eq_ok, expect_eq_ok] at hstart
  obtain ⟨_, ⟨-, rfl⟩, res, hsearch, hstart⟩ := hstart
  obtain ⟨m, hm, rfl, hafter, hbefore⟩ := searchLoop_spec h h.count (by rw [h.count])
    (by omega) (by omega) (by omega) (by omega) (fun j r hj hr => by
      have hlt := (List.getElem?_eq_some_iff.mp hr).1
      rw [h.count] at hj
      omega) (by rw [Nat.zero_sub, Nat.add_zero]) hsearch
  rw [h.count] at hm
  obtain ⟨r, hr, hread, htimem⟩ := h.read hm
  rw [hread] at hstart
  obtain rfl := Option.some.inj hstart
  rw [htime, htimem] at hne ⊢
  have hle := hbefore r₀ r hr₀ (by rw [htime]; exact hwindow) hr
  rw [htime] at hle hafter
  refine ⟨_, r, last, hr, hlast, hle, fun j r' hj hr' => ?_, by omega, rfl⟩
  obtain ⟨d, rfl⟩ : ∃ d, j = history.length - min history.length bufferSize + d :=
    ⟨j - (history.length - min history.length bufferSize), by omega⟩
  exact hafter d r' (by omega) hr'

/-! ### Runs of reports -/

/-- **What `get_twap` returns.** After any run of reports and for any window, it is the charge
between two appended reports over the time between them, rounded down: up to the newest one, from
the newest one at least a window older. Charges stop at `u128::MAX`; below it they are the sum, over
the reports in between, of each one's price times the time since the report before it. -/
theorem twap_eq_charged_average {pool : Address} {o o' : OracleAdapter} {rs : List Report}
    {now window v : ℕ} (hinit : (OracleAdapter.deployed pool).initializeOracle pool = .ok o)
    (hr : Reports o rs o') (hv : o'.getTwap now window = .ok v) :
    ∃ s first last, (appended rs)[s]? = some first ∧ (appended rs).getLast? = some last ∧
      first.timestamp ≤ last.timestamp - window ∧
      (∀ j r, s < j → (appended rs)[j]? = some r → last.timestamp - window < r.timestamp) ∧
      first.timestamp < last.timestamp ∧
      v = (min (charged Report.sqrtPriceX96 (appended rs)) u128Max
          - min (charged Report.sqrtPriceX96 ((appended rs).take (s + 1))) u128Max)
        / (last.timestamp - first.timestamp) ∧
      (charged Report.sqrtPriceX96 (appended rs) ≤ u128Max →
        v = charged Report.sqrtPriceX96 ((appended rs).drop s)
          / (last.timestamp - first.timestamp)) := by
  obtain ⟨s, first, last, hs, hlast, hle, hafter, hlt, rfl⟩ :=
    (tracks_of_reports hinit hr).getTwap hv
  refine ⟨s, first, last, hs, hlast, hle, hafter, hlt, rfl, fun hfit => ?_⟩
  have hsplit := charged_take_add_drop Report.sqrtPriceX96 (List.getElem?_eq_some_iff.mp hs).1
  rw [Nat.min_eq_left hfit, Nat.min_eq_left (by omega), ← hsplit, Nat.add_sub_cancel_left]

/-- The reports of a list, made one after the other. -/
def reportAll (o : OracleAdapter) : List Report → Res OracleAdapter
  | [] => pure o
  | r :: rs => do
    let o' ← o.writeObservation o.pool r.timestamp r.sqrtPriceX96 r.liquidity
    reportAll o' rs

theorem reports_of_reportAll {o o' : OracleAdapter} {rs : List Report}
    (h : reportAll o rs = .ok o') : Reports o rs o' := by
  induction rs generalizing o with
  | nil =>
    obtain rfl := pure_eq_ok.mp h
    exact .nil o
  | cons r rs ih =>
    obtain ⟨o₁, h₁, h₂⟩ := bind_eq_ok.mp h
    exact .cons h₁ (ih h₂)

/-- Three reports, one of them in the ledger of another, and a window that starts between two: the
average starts at the older of the two, at time 1000. -/
theorem twap_window_between_reports :
    ∃ o', Reports ⟨true, ⟨0⟩, 0, 0, fun _ => none⟩
        [⟨1000, 50, 1⟩, ⟨1000, 70, 1⟩, ⟨1600, 60, 1⟩, ⟨2000, 90, 1⟩] o' ∧
      o'.getTwap 2000 500 = .ok 72 ∧
      ∃ s first last, (appended [⟨1000, 50, 1⟩, ⟨1000, 70, 1⟩, ⟨1600, 60, 1⟩, ⟨2000, 90, 1⟩])[s]?
          = some first ∧
        (appended [⟨1000, 50, 1⟩, ⟨1000, 70, 1⟩, ⟨1600, 60, 1⟩, ⟨2000, 90, 1⟩]).getLast?
          = some last ∧
        72 = charged Report.sqrtPriceX96
            ((appended [⟨1000, 50, 1⟩, ⟨1000, 70, 1⟩, ⟨1600, 60, 1⟩, ⟨2000, 90, 1⟩]).drop s)
          / (last.timestamp - first.timestamp) := by
  have hrun : Yields (reportAll ⟨true, ⟨0⟩, 0, 0, fun _ => none⟩
      [⟨1000, 50, 1⟩, ⟨1000, 70, 1⟩, ⟨1600, 60, 1⟩, ⟨2000, 90, 1⟩])
      fun o' => Yields (o'.getTwap 2000 500) (· = 72) := by decide
  obtain ⟨o', ho, hv⟩ := yields_iff.mp hrun
  obtain ⟨v, hv, rfl⟩ := yields_iff.mp hv
  have hr := reports_of_reportAll ho
  obtain ⟨s, first, last, hs, hlast, -, -, -, -, havg⟩ :=
    twap_eq_charged_average rfl hr hv
  exact ⟨o', hr, hv, s, first, last, hs, hlast, havg (by decide)⟩

/-- The integral over `[a, b]` of the price in force, each report's price holding until the next
report. -/
def inForce (a b : ℕ) : List Report → ℕ
  | r :: r' :: rest =>
    r.sqrtPriceX96 * (min r'.timestamp b - max r.timestamp a) + inForce a b (r' :: rest)
  | _ => 0

/-- **Not the price in force.** Between the two reports the price in force is 100, and the average
over exactly that window is 50. -/
theorem twap_is_not_price_in_force :
    ∃ o', Reports ⟨true, ⟨0⟩, 0, 0, fun _ => none⟩ [⟨1000, 100, 1⟩, ⟨2000, 50, 1⟩] o' ∧
      ∃ v, o'.getTwap 2000 1000 = .ok v ∧
        ¬ v = inForce 1000 2000 [⟨1000, 100, 1⟩, ⟨2000, 50, 1⟩] / 1000 := by
  have hrun : Yields (reportAll ⟨true, ⟨0⟩, 0, 0, fun _ => none⟩
      [⟨1000, 100, 1⟩, ⟨2000, 50, 1⟩]) fun o' => Yields (o'.getTwap 2000 1000)
        fun v => ¬ v = inForce 1000 2000 [⟨1000, 100, 1⟩, ⟨2000, 50, 1⟩] / 1000 := by
    decide
  obtain ⟨o', ho, hv⟩ := yields_iff.mp hrun
  obtain ⟨v, hv, hne⟩ := yields_iff.mp hv
  exact ⟨o', reports_of_reportAll ho, v, hv, hne⟩

end OracleAdapter

end Swyft
