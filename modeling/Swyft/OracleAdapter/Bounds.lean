import Swyft.OracleAdapter.Buffer

/-!
# The average lies between the prices it averages

As long as nothing saturates, `get_twap` divides a sum of prices, each weighted by the time it is
charged for, by the sum of the weights; the floor of that lies between the least and the greatest
of the prices. It is computed from slots that were written and by a divisor that is not zero: the
only ways `get_twap` stops are its own errors.

## Main results

* `charged_bounds` — a charge between two multiples of the time it covers
* `Tracks.getTwap_error` — the ways `get_twap` stops
* `twap_between_written_prices` — both, for every run of reports and every window
-/

namespace Swyft

/-- A charge at prices between `lo` and `hi` lies between `lo` and `hi` times the time covered. -/
theorem charged_bounds {lo hi : ℕ} {first last : Report} {rest : List Report}
    (hinc : (first :: rest).Pairwise fun r r' => r.timestamp < r'.timestamp)
    (hlast : (first :: rest).getLast? = some last)
    (h : ∀ r ∈ rest, lo ≤ r.sqrtPriceX96 ∧ r.sqrtPriceX96 ≤ hi) :
    lo * (last.timestamp - first.timestamp) ≤ charged Report.sqrtPriceX96 (first :: rest) ∧
      charged Report.sqrtPriceX96 (first :: rest) ≤ hi * (last.timestamp - first.timestamp) := by
  induction rest generalizing first with
  | nil =>
    obtain rfl : first = last := by simpa using hlast
    rw [Nat.sub_self, Nat.mul_zero, Nat.mul_zero]
    exact ⟨Nat.zero_le _, le_rfl⟩
  | cons next rest ih =>
    rw [List.getLast?_cons_cons] at hlast
    have hstep : first.timestamp < next.timestamp :=
      (List.pairwise_cons.mp hinc).1 next (List.mem_cons_self ..)
    have hle : next.timestamp ≤ last.timestamp := by
      rcases List.mem_cons.mp (List.mem_of_getLast? hlast) with rfl | hmem
      · exact le_rfl
      · exact ((List.pairwise_cons.mp (List.pairwise_cons.mp hinc).2).1 last hmem).le
    obtain ⟨hlo, hhi⟩ := ih (List.pairwise_cons.mp hinc).2 hlast
      fun r hr => h r (List.mem_cons_of_mem _ hr)
    obtain ⟨hplo, hphi⟩ := h next (List.mem_cons_self ..)
    have htime : last.timestamp - first.timestamp
        = (next.timestamp - first.timestamp) + (last.timestamp - next.timestamp) := by omega
    rw [charged, htime, Nat.mul_add, Nat.mul_add]
    exact ⟨Nat.add_le_add (Nat.mul_le_mul_right _ hplo) hlo,
      Nat.add_le_add (Nat.mul_le_mul_right _ hphi) hhi⟩

namespace OracleAdapter

open Checked

variable {o : OracleAdapter} {history : List Report}

/-! ### Nothing unwritten is read -/

/-- The binary search reads written slots only. -/
theorem searchLoop_ok (h : o.Tracks history) (target : ℕ) :
    ∀ {fuel lo hi result : ℕ}, hi < min history.length bufferSize →
      ∃ res, searchLoop o ((history.length - min history.length bufferSize) % bufferSize) target
        fuel lo hi result = .ok res := by
  intro fuel
  induction fuel with
  | zero =>
    intro lo hi result _
    exact ⟨result, rfl⟩
  | succ fuel ih =>
    intro lo hi result hhi
    rw [searchLoop]
    split
    case isFalse => exact ⟨result, rfl⟩
    case isTrue hle =>
      obtain ⟨r, -, hread, -⟩ := h.read (j := lo + (hi - lo) / 2) (by omega)
      simp only [Ring.logical_slot, hread, expect, getOr, ok_bind]
      split
      · exact ih hhi
      · split
        · exact ⟨result, rfl⟩
        · exact ih (by omega)

/-- The search ends at a written slot, at or before the target if the oldest is. -/
theorem binarySearchObservation_ok (h : o.Tracks history) {target : ℕ} {oldest : Report}
    (hold : history[history.length - o.observationCount]? = some oldest)
    (hle : oldest.timestamp ≤ target) :
    ∃ (m : ℕ) (r : Report), history[m]? = some r ∧ r.timestamp ≤ target ∧
      binarySearchObservation o o.observationCount o.writeIndex target
        = .ok (observationOf (history.take (m + 1))) := by
  have hcount := h.count
  have hpos : 0 < o.observationCount := by
    have := (List.getElem?_eq_some_iff.mp hold).1
    omega
  have hslot : oldestIndex o.observationCount o.writeIndex
      = (history.length - o.observationCount) % bufferSize := by
    rw [oldestIndex, hcount, h.writeIndex, Nat.mod_mod, Ring.oldest_slot]
  obtain ⟨res, hres⟩ : ∃ res, searchLoop o ((history.length - o.observationCount) % bufferSize)
      target o.observationCount 0 (o.observationCount - 1)
      ((history.length - o.observationCount) % bufferSize) = .ok res := by
    rw [hcount]
    exact searchLoop_ok h target (by omega)
  obtain ⟨m, hm, rfl, -, hbefore⟩ := searchLoop_spec h hcount rfl (by omega) (by omega) (by omega)
    (fun j r hj _ => absurd hj (Nat.not_lt_zero j))
    (fun j r hj hr => by
      have hlt := (List.getElem?_eq_some_iff.mp hr).1
      omega)
    (by rw [Nat.zero_sub, Nat.add_zero]) hres
  rw [hcount] at hm
  obtain ⟨r, hr, hread, -⟩ := h.read hm
  rw [← hcount] at hr hread
  refine ⟨history.length - o.observationCount + m, r, hr, hbefore oldest r hold hle hr, ?_⟩
  rw [binarySearchObservation, subU64, subU_of_le (by omega), ok_bind, hslot, hres, ok_bind,
    hread]
  rfl

/-- **How `get_twap` stops.** Only with one of the adapter's own errors: every slot it reads was
written, and the time it divides by is not zero. -/
theorem Tracks.getTwap_error (h : o.Tracks history) {now window : ℕ} {e : Trap}
    (he : o.getTwap now window = .error e) : ∃ c, e = oracleError c := by
  have hcount := h.count
  rw [OracleAdapter.getTwap, require_pos h.initialized, ok_bind, bind_eq_error] at he
  rcases he with hfew | ⟨⟨⟩, htwo, he⟩
  · exact ⟨_, (require_eq_error.mp hfew).2.symm⟩
  rw [require_eq_ok] at htwo
  have hne : history ≠ [] := by
    rintro rfl
    simp only [List.length_nil, Nat.zero_min] at hcount
    omega
  rw [h.newest hne, expect, getOr, ok_bind, bind_eq_error] at he
  rcases he with hstale | ⟨⟨⟩, -, he⟩
  · exact ⟨_, (require_eq_error.mp hstale).2.symm⟩
  obtain ⟨r₀, hr₀, hread₀, htime₀⟩ := h.read (j := 0) (by omega)
  rw [Nat.add_zero] at hr₀ hread₀ htime₀
  rw [oldestIndex, hcount, h.writeIndex, Nat.mod_mod, Ring.oldest_slot, hread₀, expect, getOr,
    ok_bind, bind_eq_error] at he
  rcases he with hwide | ⟨⟨⟩, hwindow, he⟩
  · exact ⟨_, (require_eq_error.mp hwide).2.symm⟩
  rw [require_eq_ok, htime₀] at hwindow
  rw [← hcount] at he hr₀
  obtain ⟨m, r, hr, hle, hstart⟩ := binarySearchObservation_ok h hr₀ hwindow
  have hbefore : r.timestamp ≤ (observationOf history).timestamp :=
    hle.trans (Nat.sub_le _ _)
  rw [← h.writeIndex, hstart, ok_bind, observationOf_timestamp hr, subU64, subU_of_le hbefore,
    ok_bind, bind_eq_error] at he
  rcases he with hshort | ⟨⟨⟩, hpos, he⟩
  · exact ⟨_, (require_eq_error.mp hshort).2.symm⟩
  · rw [require_eq_ok] at hpos
    rw [divU128, divU_of_pos (Nat.pos_of_ne_zero hpos)] at he
    cases he

/-- **When `get_twap` answers.** The newest observation is of this very ledger or later, the oldest
one kept reaches back over the window, and the window is not empty. -/
theorem Tracks.getTwap_isOk (h : o.Tracks history) {now window : ℕ} :
    (∃ v, o.getTwap now window = .ok v) ↔
      ∃ oldest last, history[history.length - bufferSize]? = some oldest ∧
        history.getLast? = some last ∧ now ≤ last.timestamp ∧
        oldest.timestamp ≤ last.timestamp - window ∧
        last.timestamp - window < last.timestamp := by
  have hcount := h.count
  have hkept : history.length - min history.length bufferSize = history.length - bufferSize := by
    omega
  constructor
  · rintro ⟨v, hv⟩
    obtain ⟨s, first, last, hs, hlast, -, hafter, hlt, -⟩ := h.getTwap hv
    have hget : history[history.length - 1]? = some last := by
      rw [← List.getLast?_eq_getElem?, hlast]
    have hsucc : s < history.length - 1 := by
      have hslt := (List.getElem?_eq_some_iff.mp hs).1
      by_contra hge
      rw [show history.length - 1 = s by omega, hs] at hget
      cases hget
      omega
    simp only [OracleAdapter.getTwap, bind_eq_ok, require_eq_ok, exists_const, expect_eq_ok] at hv
    obtain ⟨-, htwo, newest, hnewest, hnow, oldest, holdest, hwindow, -⟩ := hv
    have hne : history ≠ [] := by
      rintro rfl
      cases hs
    have htime : (observationOf history).timestamp = last.timestamp := by
      rw [observationOf, hlast]
      rfl
    obtain rfl := Option.some.inj ((h.newest hne).symm.trans hnewest)
    obtain ⟨r₀, hr₀, hread₀, htime₀⟩ := h.read (j := 0) (by omega)
    rw [Nat.add_zero] at hr₀ hread₀ htime₀
    rw [oldestIndex, hcount, h.writeIndex, Nat.mod_mod, Ring.oldest_slot, hread₀] at holdest
    obtain rfl := Option.some.inj holdest
    rw [htime] at hnow hwindow
    rw [htime₀] at hwindow
    exact ⟨r₀, last, hkept ▸ hr₀, hlast, hnow, hwindow, hafter _ _ hsucc hget⟩
  · rintro ⟨oldest, last, hold, hlast, hnow, hwindow, hpos⟩
    have hne : history ≠ [] := by
      rintro rfl
      cases hlast
    have htime : (observationOf history).timestamp = last.timestamp := by
      rw [observationOf, hlast]
      rfl
    have htwo : 2 ≤ o.observationCount := by
      -- with one observation the oldest is the newest, and it is not a window older
      by_contra hfew
      have hlen := List.length_pos_iff.mpr hne
      rw [hcount, bufferSize] at hfew
      rw [List.getLast?_eq_getElem?, show history.length - 1 = history.length - bufferSize by
        rw [bufferSize]; omega, hold] at hlast
      cases hlast
      omega
    rw [← hkept, ← hcount] at hold
    have hslot : oldestIndex o.observationCount o.writeIndex
        = (history.length - o.observationCount) % bufferSize := by
      rw [oldestIndex, hcount, h.writeIndex, Nat.mod_mod, Ring.oldest_slot]
    obtain ⟨m, r, hr, hle, hstart⟩ := binarySearchObservation_ok h hold hwindow
    obtain ⟨r₀, hr₀, hread₀, htime₀⟩ := h.read (j := 0) (by omega)
    rw [← hcount, Nat.add_zero] at hr₀ hread₀ htime₀
    obtain rfl : oldest = r₀ := Option.some.inj (hold.symm.trans hr₀)
    rw [OracleAdapter.getTwap, require_pos h.initialized, ok_bind, require_pos htwo, ok_bind,
      h.newest hne, expect, getOr, ok_bind, htime, require_pos hnow, ok_bind, hslot, hread₀, expect,
      getOr, ok_bind, htime₀, satSub, require_pos hwindow, ok_bind, hstart, ok_bind,
      observationOf_timestamp hr, subU64, subU_of_le (by omega), ok_bind,
      require_pos (by omega), ok_bind, divU128, divU_of_pos (by omega)]
    exact ⟨_, rfl⟩

/-- An answer lies between any bounds on the prices appended inside the window; the lower one needs
that nothing has saturated. -/
theorem Tracks.getTwap_bounds (h : o.Tracks history) {now window v lo hi : ℕ} {last : Report}
    (hv : o.getTwap now window = .ok v) (hlast : history.getLast? = some last)
    (hprices : ∀ r ∈ history, last.timestamp - window < r.timestamp →
      lo ≤ r.sqrtPriceX96 ∧ r.sqrtPriceX96 ≤ hi) :
    v ≤ hi ∧ (charged Report.sqrtPriceX96 history < 2 ^ 128 → lo ≤ v) := by
  obtain ⟨s, first, last', hs, hlast', -, hafter, hlt, rfl⟩ := h.getTwap hv
  obtain rfl : last' = last := Option.some.inj (hlast'.symm.trans hlast)
  obtain ⟨hslt, hsget⟩ := List.getElem?_eq_some_iff.mp hs
  have hdrop : history.drop s = first :: history.drop (s + 1) := by
    rw [← hsget, List.drop_eq_getElem_cons hslt]
  have hinside : ∀ r ∈ history.drop (s + 1), lo ≤ r.sqrtPriceX96 ∧ r.sqrtPriceX96 ≤ hi := by
    intro r hr
    obtain ⟨j, hj⟩ := List.mem_iff_getElem?.mp hr
    rw [List.getElem?_drop] at hj
    exact hprices r (List.mem_of_mem_drop hr) (hafter _ r (by omega) hj)
  obtain ⟨hlo, hhi⟩ := charged_bounds (hdrop ▸ h.increasing.drop)
    (by rw [← hdrop, List.getLast?_drop, if_neg (by omega), hlast']) hinside
  rw [← hdrop] at hlo hhi
  have hsplit := charged_take_add_drop Report.sqrtPriceX96 hslt
  have hpos : 0 < last'.timestamp - first.timestamp := by omega
  constructor
  · refine Nat.div_le_of_le_mul (le_trans ?_ (hhi.trans_eq (Nat.mul_comm _ _)))
    omega
  · intro hfit
    have hmax : charged Report.sqrtPriceX96 history ≤ u128Max := Nat.le_sub_one_of_lt hfit
    rw [Nat.le_div_iff_mul_le hpos, Nat.min_eq_left hmax, Nat.min_eq_left (by omega)]
    omega

/-! ### Runs of reports -/

/-- **The average lies between the prices it averages.** After any run of reports whose charges
stay below `2 ^ 128`: whatever `get_twap` returns lies between the least and the greatest price
appended after the observation it starts from, and when it returns nothing it stops with one of the
adapter's own errors. -/
theorem twap_between_written_prices {pool : Address} {o o' : OracleAdapter} {rs : List Report}
    (hinit : (OracleAdapter.deployed pool).initializeOracle pool = .ok o)
    (hr : Reports o rs o') (hfit : charged Report.sqrtPriceX96 (appended rs) < 2 ^ 128) :
    (∀ now window v, o'.getTwap now window = .ok v →
      ∃ s first last lo hi, (appended rs)[s]? = some first ∧
        (appended rs).getLast? = some last ∧
        first.timestamp ≤ last.timestamp - window ∧
        (∀ j r, s < j → (appended rs)[j]? = some r → last.timestamp - window < r.timestamp) ∧
        (((appended rs).drop (s + 1)).map Report.sqrtPriceX96).min? = some lo ∧
        (((appended rs).drop (s + 1)).map Report.sqrtPriceX96).max? = some hi ∧
        lo ≤ v ∧ v ≤ hi) ∧
      ∀ now window e, o'.getTwap now window = .error e → ∃ c, e = oracleError c := by
  have h := tracks_of_reports hinit hr
  refine ⟨fun now window v hv => ?_, fun now window e => h.getTwap_error⟩
  obtain ⟨s, first, last, hs, hlast, hle, hafter, hlt, -, havg⟩ :=
    twap_eq_charged_average hinit hr hv
  obtain ⟨hslt, hsget⟩ := List.getElem?_eq_some_iff.mp hs
  -- the start is not the newest observation, so there are prices to average
  have hsucc : s + 1 < (appended rs).length := by
    rcases Nat.lt_or_ge (s + 1) (appended rs).length with hlt' | hge
    · exact hlt'
    · rw [List.getLast?_eq_getElem?, show (appended rs).length - 1 = s by omega, hs] at hlast
      cases hlast
      exact absurd hlt (Nat.lt_irrefl _)
  obtain ⟨lo, hlo⟩ : ∃ lo, (((appended rs).drop (s + 1)).map Report.sqrtPriceX96).min? = some lo :=
    Option.ne_none_iff_exists'.mp fun hnone => by
      have := congrArg List.length (List.min?_eq_none_iff.mp hnone)
      simp only [List.length_map, List.length_drop, List.length_nil] at this
      omega
  obtain ⟨hi, hhi⟩ : ∃ hi, (((appended rs).drop (s + 1)).map Report.sqrtPriceX96).max? = some hi :=
    Option.ne_none_iff_exists'.mp fun hnone => by
      have := congrArg List.length (List.max?_eq_none_iff.mp hnone)
      simp only [List.length_map, List.length_drop, List.length_nil] at this
      omega
  have hdrop : (appended rs).drop s = first :: (appended rs).drop (s + 1) := by
    rw [← hsget, List.drop_eq_getElem_cons hslt]
  have hprices : ∀ r ∈ (appended rs).drop (s + 1),
      lo ≤ r.sqrtPriceX96 ∧ r.sqrtPriceX96 ≤ hi := fun r hmem =>
    ⟨(List.min?_eq_some_iff.mp hlo).2 _ (List.mem_map_of_mem hmem),
      (List.max?_eq_some_iff.mp hhi).2 _ (List.mem_map_of_mem hmem)⟩
  have hbetween := charged_bounds (hdrop ▸ h.increasing.drop)
    (by rw [← hdrop, List.getLast?_drop, if_neg (by omega), hlast]) hprices
  rw [← hdrop] at hbetween
  have hpos : 0 < last.timestamp - first.timestamp := by omega
  refine ⟨s, first, last, lo, hi, hs, hlast, hle, hafter, hlo, hhi, ?_, ?_⟩
  · rw [havg (Nat.le_sub_one_of_lt hfit), Nat.le_div_iff_mul_le hpos]
    exact hbetween.1
  · rw [havg (Nat.le_sub_one_of_lt hfit)]
    refine Nat.div_le_of_le_mul ?_
    rw [Nat.mul_comm]
    exact hbetween.2

/-- Four reports, one of them in the ledger of another: over a window of 500 the average is 72,
between the prices 60 and 90 of the two reports it averages. -/
theorem twap_within_window_prices :
    ∃ o', Reports ⟨true, ⟨0⟩, 0, 0, fun _ => none⟩
        [⟨1000, 50, 1⟩, ⟨1000, 70, 1⟩, ⟨1600, 60, 1⟩, ⟨2000, 90, 1⟩] o' ∧
      o'.getTwap 2000 500 = .ok 72 ∧
      (∃ s lo hi, (((appended [⟨1000, 50, 1⟩, ⟨1000, 70, 1⟩, ⟨1600, 60, 1⟩,
          ⟨2000, 90, 1⟩]).drop (s + 1)).map Report.sqrtPriceX96).min? = some lo ∧
        (((appended [⟨1000, 50, 1⟩, ⟨1000, 70, 1⟩, ⟨1600, 60, 1⟩,
          ⟨2000, 90, 1⟩]).drop (s + 1)).map Report.sqrtPriceX96).max? = some hi ∧
        lo ≤ 72 ∧ 72 ≤ hi) ∧
      o'.getTwap 2000 1001 = .error (oracleError .windowTooLarge) ∧
      ∃ c, oracleError .windowTooLarge = oracleError c := by
  have hrun : Yields (reportAll ⟨true, ⟨0⟩, 0, 0, fun _ => none⟩
      [⟨1000, 50, 1⟩, ⟨1000, 70, 1⟩, ⟨1600, 60, 1⟩, ⟨2000, 90, 1⟩])
      fun o' => Yields (o'.getTwap 2000 500) (· = 72) ∧
        errorOf (o'.getTwap 2000 1001) = some (oracleError .windowTooLarge) := by decide
  obtain ⟨o', ho, hv, he⟩ := yields_iff.mp hrun
  obtain ⟨v, hv, rfl⟩ := yields_iff.mp hv
  rw [errorOf_eq_some] at he
  have hr := reports_of_reportAll ho
  have hinit : (OracleAdapter.deployed ⟨0⟩).initializeOracle ⟨0⟩
      = .ok ⟨true, ⟨0⟩, 0, 0, fun _ => none⟩ := rfl
  obtain ⟨hbetween, herror⟩ := twap_between_written_prices hinit hr (by decide)
  obtain ⟨s, _, _, lo, hi, -, -, -, -, hlo, hhi, hle, hge⟩ := hbetween 2000 500 72 hv
  exact ⟨o', hr, hv, ⟨s, lo, hi, hlo, hhi, hle, hge⟩, he, herror 2000 1001 _ he⟩

end OracleAdapter

end Swyft
