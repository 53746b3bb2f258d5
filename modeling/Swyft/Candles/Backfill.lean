import Swyft.Candles.Hourly

/-!
# Filling in the past

`backfill` goes through the periods from that of the first swap on, and stops short of the last
one that is completed.

## Main definitions

* `HasSource` — a pool has something to compute the candle of a period from
* `Complete` — every completed period has the candles it can have
* `LastStored` — the last completed period had them already

## Main results

* `backfillLoop_spec` — what the loop leaves in the table
* `backfill_complete_iff` — when `backfill` fills in everything
-/

namespace Swyft.Candles

open Checked CandleInterval

/-- A pool has a swap in a period or, where the candle is computed from others, one of those. -/
def HasSource (db : Database) (interval : CandleInterval) (pool : String) (t : ℤ) : Prop :=
  match interval.bucketSource with
  | some source => ∃ start, (db.candles.get ⟨pool, source.text, start⟩).isSome ∧ t ≤ start ∧
      start < t + interval.ms
  | none => Traded db pool t (t + interval.ms)

/-- The candle of a period is stored. -/
def Stored (db : Database) (interval : CandleInterval) (pool : String) (t : ℤ) : Prop :=
  (db.candles.get ⟨pool, interval.text, t⟩).isSome

/-- Every period from that of the first swap on that has ended has a candle for each pool with
source data in it. -/
def Complete (db : Database) (interval : CandleInterval) (now : ℤ) : Prop :=
  ∀ t pool, interval.ms ∣ t → (∃ s ∈ db.swaps, s.createdAt < t + interval.ms) →
    t + interval.ms ≤ now → HasSource db interval pool t → Stored db interval pool t

/-- The last period that has ended has its candles, if there is a swap that is not after it. -/
def LastStored (db : Database) (interval : CandleInterval) (now : ℤ) : Prop :=
  (∃ s ∈ db.swaps, s.createdAt < floorTo interval.ms (now - interval.ms) + interval.ms) →
    ∀ pool, HasSource db interval pool (floorTo interval.ms (now - interval.ms)) →
      Stored db interval pool (floorTo interval.ms (now - interval.ms))

/-! ### Periods -/

section Floor

variable {ms t x : ℤ}

theorem dvd_floorTo : ms ∣ floorTo ms x := Dvd.intro_left _ rfl

/-- A time before the end of a period falls in it or in an earlier one. -/
theorem floorTo_le_iff (hms : 0 < ms) (ht : ms ∣ t) : floorTo ms x ≤ t ↔ x < t + ms := by
  obtain ⟨q, rfl⟩ := ht
  rw [floorTo, mul_comm ms q, mul_le_mul_iff_of_pos_right hms, ← Int.lt_add_one_iff,
    Int.ediv_lt_iff_lt_mul hms, add_mul, one_mul]

/-- The last period that ends by a time. -/
theorem le_floorTo_iff (hms : 0 < ms) (ht : ms ∣ t) : t ≤ floorTo ms (x - ms) ↔ t + ms ≤ x := by
  obtain ⟨q, rfl⟩ := ht
  rw [floorTo, mul_comm ms q, mul_le_mul_iff_of_pos_right hms, Int.le_ediv_iff_mul_le hms]
  omega

end Floor

/-! ### The loop -/

section Loop

variable {db db' : Database} {interval : CandleInterval} {correlationId : String}
  {inFlight : List String} {pool : String} {t : ℤ} {n : ℕ}

/-- **A period's candles are written for the pools with source data.** -/
theorem writes_fill_iff : Writes db interval t .fill correlationId pool
    ↔ HasSource db interval pool t := by
  rw [Writes, HasSource, periodCandles]
  cases interval.bucketSource with
  | some source =>
    constructor
    · rintro ⟨byPool, hrun, hsome⟩
      obtain rfl := pure_eq_ok.mp hrun
      exact isSome_accumulated_iff.mp hsome
    · intro h
      exact ⟨_, rfl, isSome_accumulated_iff.mpr h⟩
  | none =>
    constructor
    · rintro ⟨byPool, hrun, hsome⟩
      obtain rfl := pure_eq_ok.mp hrun
      exact isSome_directCandles_iff.mp hsome
    · intro h
      exact ⟨_, rfl, isSome_directCandles_iff.mpr h⟩

theorem traded_congr {gte lt : ℤ} (h : db'.swaps = db.swaps) :
    Traded db' pool gte lt ↔ Traded db pool gte lt := by
  rw [Traded, Traded, h]

/-- Writing the candles of an interval leaves what they are computed from. -/
theorem hasSource_congr (hswaps : db'.swaps = db.swaps)
    (hother : ∀ key, key.interval ≠ interval.text → db'.candles.get key = db.candles.get key) :
    HasSource db' interval pool t ↔ HasSource db interval pool t := by
  cases interval with
  | oneHour =>
    show (∃ start, _ ∧ _) ↔ ∃ start, _ ∧ _
    simp only [hother ⟨pool, fiveMinutes.text, _⟩ (show fiveMinutes.text ≠ oneHour.text by decide)]
  | oneMinute => exact traded_congr hswaps
  | fiveMinutes => exact traded_congr hswaps
  | oneDay => exact traded_congr hswaps

/-- What a run has left of the table: the swaps, and the candles of other intervals and periods. -/
structure Kept (interval : CandleInterval) (starts : List ℤ) (db db' : Database) : Prop where
  swaps : db'.swaps = db.swaps
  others : ∀ key, ¬ (key.interval = interval.text ∧ key.periodStart ∈ starts) →
    db'.candles.get key = db.candles.get key
  stored : ∀ key, (db.candles.get key).isSome → (db'.candles.get key).isSome

/-- One period. -/
theorem aggregatePeriod_kept {gapPolicy : CandleGapPolicy}
    (h : aggregatePeriod db interval t gapPolicy correlationId = .ok (n, db')) :
    Kept interval [t] db db' := by
  obtain ⟨byPool, -, heq⟩ := bind_eq_ok.mp h
  obtain ⟨rfl, rfl⟩ := Prod.mk.inj (pure_eq_ok.mp heq)
  refine ⟨rfl, fun key hkey => ?_, fun key hsome => ?_⟩
  · rw [get_upsertAll, if_neg fun h => hkey ⟨h.1, List.mem_singleton.mpr h.2⟩]
  · rw [get_upsertAll]
    split
    · rw [Option.isSome_or, hsome, Bool.or_true]
    · exact hsome

/-- **What the loop leaves in the table**: each of its periods has the candles it can have, and the
rest is as it was. -/
theorem backfillLoop_spec {starts : List ℤ} {written : ℕ}
    (h : backfillLoop inFlight interval .fill correlationId starts written db = (db', .ok n)) :
    Kept interval starts db db' ∧
      ∀ t ∈ starts, ∀ pool, HasSource db interval pool t → Stored db' interval pool t := by
  induction starts generalizing db written with
  | nil =>
    obtain ⟨rfl, -⟩ := Prod.mk.inj h
    exact ⟨⟨rfl, fun _ _ => rfl, fun _ h => h⟩, fun t ht => absurd ht List.not_mem_nil⟩
  | cons start starts ih =>
    rw [backfillLoop] at h
    cases hperiod : runExclusive inFlight (interval.text ++ ":" ++ isoText start) correlationId
        (aggregatePeriod db interval start .fill correlationId) with
    | error e =>
      rw [hperiod] at h
      exact nomatch (Prod.mk.inj h).2
    | ok result =>
      obtain ⟨k, db₁⟩ := result
      rw [hperiod] at h
      obtain ⟨_, -, hrun⟩ := bind_eq_ok.mp hperiod
      have hfirst := aggregatePeriod_kept hrun
      obtain ⟨hkept, hall⟩ := ih h
      have hsource : ∀ pool t, HasSource db₁ interval pool t ↔ HasSource db interval pool t :=
        fun pool t => hasSource_congr hfirst.swaps fun key hkey => hfirst.others key fun h =>
          hkey h.1
      refine ⟨⟨hkept.swaps.trans hfirst.swaps, fun key hkey => ?_, fun key hsome => ?_⟩, ?_⟩
      · rw [hkept.others key fun h => hkey ⟨h.1, List.mem_cons_of_mem _ h.2⟩]
        exact hfirst.others key fun h =>
          hkey ⟨h.1, List.mem_cons.mpr (.inl (List.mem_singleton.mp h.2))⟩
      · exact hkept.stored key (hfirst.stored key hsome)
      · intro t ht pool hpool
        rcases List.mem_cons.mp ht with rfl | ht
        · exact hkept.stored _ ((get_aggregatePeriod hrun pool).1 (writes_fill_iff.mpr hpool))
        · exact hall t ht pool ((hsource pool t).mpr hpool)

end Loop

/-! ### The request -/

section Request

variable {db db' : Database} {interval : CandleInterval} {inFlight : List String}
  {actor : Option CandleActor} {now : ℤ} {correlationId : String} {n : ℕ}

/-- A run of `backfill` that ends well: nothing is done without swaps, and otherwise the loop goes
from the period of the first swap. -/
theorem backfill_eq_ok
    (h : backfill db inFlight interval.text actor now correlationId .fill = (db', .ok n)) :
    (db.swaps = [] ∧ db' = db) ∨ ∃ first ∈ db.swaps,
      (∀ s ∈ db.swaps, first.createdAt ≤ s.createdAt) ∧
        backfillLoop inFlight interval .fill correlationId
        (Counting.upTo (floorTo interval.ms first.createdAt)
          (floorTo interval.ms (now - interval.ms)) interval.ms) 0 db = (db', .ok n) := by
  rw [backfill] at h
  cases hauthorize : authorize actor correlationId with
  | error e =>
    rw [hauthorize, error_bind] at h
    exact nomatch (Prod.mk.inj h).2
  | ok _ =>
    rw [hauthorize, ok_bind, assertInterval_text] at h
    dsimp only at h
    cases hhead : (db.swaps.insertionSort SwapProcessed.Earlier).head? with
    | none =>
      rw [hhead] at h
      have hnil : db.swaps.insertionSort SwapProcessed.Earlier = [] :=
        List.head?_eq_none_iff.mp hhead
      refine .inl ⟨?_, (Prod.mk.inj h).1.symm⟩
      exact List.eq_nil_iff_length_eq_zero.mpr
        (by rw [← List.length_insertionSort SwapProcessed.Earlier, hnil]; rfl)
    | some first =>
      rw [hhead] at h
      obtain ⟨rest, hsorted⟩ := List.head?_eq_some_iff.mp hhead
      refine .inr ⟨first, ?_, fun s hs => ?_, h⟩
      · rw [← List.mem_insertionSort SwapProcessed.Earlier, hsorted]
        exact List.mem_cons_self
      · rw [← List.mem_insertionSort SwapProcessed.Earlier, hsorted] at hs
        have hpairs := pairwise_ordered db
        rw [Database.ordered, hsorted] at hpairs
        rcases List.mem_cons.mp hs with rfl | hs
        · exact le_rfl
        · exact (List.pairwise_cons.mp hpairs).1 s hs

end Request

/-- **`backfill` under the policy `fill` fills in everything** exactly where the last period that
has ended has its candles already. -/
theorem backfill_complete_iff (db : Database) (inFlight : List String) (interval : CandleInterval)
    (actor : Option CandleActor) (now : ℤ) (correlationId : String) (db' : Database) (n : ℕ)
    (hrun : backfill db inFlight interval.text actor now correlationId .fill = (db', .ok n)) :
    Complete db' interval now ↔ LastStored db interval now := by
  rcases backfill_eq_ok hrun with ⟨hnil, rfl⟩ | ⟨first, hfirst, hmin, hloop⟩
  · refine iff_of_true (fun t pool _ hswap => ?_) fun hswap => ?_ <;>
      exact absurd hswap (by simp [hnil])
  have hms := interval.ms_pos
  obtain ⟨hkept, hall⟩ := backfillLoop_spec hloop
  have hsource : ∀ pool t, HasSource db' interval pool t ↔ HasSource db interval pool t :=
    fun pool t => hasSource_congr hkept.swaps fun key hkey => hkept.others key fun h => hkey h.1
  -- the last period is left out of the loop
  have hlast : ∀ pool, Stored db' interval pool (floorTo interval.ms (now - interval.ms))
      ↔ Stored db interval pool (floorTo interval.ms (now - interval.ms)) := by
    intro pool
    have hout : floorTo interval.ms (now - interval.ms) ∉ Counting.upTo
        (floorTo interval.ms first.createdAt) (floorTo interval.ms (now - interval.ms))
        interval.ms := fun hin => lt_irrefl _ ((Counting.mem_upTo hms).mp hin).2.1
    rw [Stored, Stored, hkept.others _ fun h => hout h.2]
  constructor
  · intro h hswap pool hpool
    rw [← hlast]
    refine h _ pool dvd_floorTo (hkept.swaps.symm ▸ hswap) ?_ ((hsource pool _).mpr hpool)
    exact (le_floorTo_iff hms dvd_floorTo).mp le_rfl
  · intro h t pool hdvd hswap hended hpool
    rw [hkept.swaps] at hswap
    rw [hsource] at hpool
    rcases lt_or_eq_of_le ((le_floorTo_iff hms hdvd).mpr hended) with hlt | heq
    · refine hall t ((Counting.mem_upTo hms).mpr ⟨?_, hlt, Int.dvd_sub hdvd dvd_floorTo⟩) pool hpool
      obtain ⟨s, hs, hbefore⟩ := hswap
      exact (floorTo_le_iff hms hdvd).mpr ((hmin s hs).trans_lt hbefore)
    · subst heq
      exact (hlast pool).mpr (h hswap pool hpool)

/-- A swap in the first minute. -/
def oneSwap : Database := ⟨[⟨"A", 100, 500, 30000⟩], .empty⟩

theorem backfill_oneSwap : ∃ db',
    backfill oneSwap [] "1m" (some ⟨["admin"]⟩) 180000 "" .fill = (db', .ok 1) ∧
      (Complete db' oneMinute 180000 ↔ LastStored oneSwap oneMinute 180000) := by
  have hrun : backfill oneSwap [] "1m" (some ⟨["admin"]⟩) 180000 "" .fill
      = ((backfill oneSwap [] "1m" (some ⟨["admin"]⟩) 180000 "" .fill).1, .ok 1) :=
    Prod.ext rfl (by decide +kernel)
  exact ⟨_, hrun, backfill_complete_iff oneSwap [] oneMinute (some ⟨["admin"]⟩) 180000 "" _ 1 hrun⟩

/-- **The minute that has just ended is left out**: at its end there is no candle of its swap. -/
theorem last_period_left_out :
    backfill oneSwap [] "1m" (some ⟨["admin"]⟩) 60000 "" .fill = (oneSwap, .ok 0) ∧
      ¬ Complete oneSwap oneMinute 60000 := by
  refine ⟨rfl, fun h => ?_⟩
  have hswap : (⟨"A", 100, 500, 30000⟩ : SwapProcessed) ∈ oneSwap.swaps := List.mem_cons_self
  have hstored := h 0 "A" (dvd_zero _) ⟨_, hswap, by decide⟩ (by decide)
    ⟨_, hswap, rfl, by decide, by decide⟩
  exact nomatch hstored

end Swyft.Candles
