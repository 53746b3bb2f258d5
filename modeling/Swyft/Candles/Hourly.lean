import Swyft.Candles.Model

/-!
# Hourly candles from five-minute candles

The candle of an hour is computed from the candles of its twelve buckets. Candles add up, and the
swaps of an hour are those of its buckets one after the other, so that this is the candle of the
hour's swaps.

## Main definitions

* `aggregatePeriods` — `aggregatePeriod` for one period after the other
* `Traded` — a pool has a swap in a window of time

## Main results

* `get_aggregatePeriods` — what the candles of periods are written over
* `total_windows` — the candles of windows one after the other add up to that of the whole
* `hourly_eq_direct` — the candle of an hour from its buckets is that from its swaps
-/

namespace Swyft.Candles

open Checked CandleInterval

/-- `aggregatePeriod` for one period after the other. -/
def aggregatePeriods (interval : CandleInterval) (gapPolicy : CandleGapPolicy)
    (correlationId : String) (starts : List ℤ) (db : Database) : Except CandleError Database :=
  starts.foldlM (fun db periodStart =>
    (aggregatePeriod db interval periodStart gapPolicy correlationId).map Prod.snd) db

/-- The starts of the buckets of an hour. -/
def hourBuckets (hour : ℤ) : List ℤ := Counting.upTo hour (hour + oneHour.ms) fiveMinutes.ms

/-- What the swaps of a window of time bring to the candles of their pools. -/
def Database.swapRows (db : Database) (gte lt : ℤ) : List (String × Ohlcv) :=
  (db.findSwaps gte lt).map SwapProcessed.row

/-- The candles that the swaps of a window of time make when they are accumulated directly. -/
def directCandles (db : Database) (gte lt : ℤ) : OrderedMap String Ohlcv :=
  accumulateAll (db.swapRows gte lt)

/-- A pool has a swap in a window of time. -/
def Traded (db : Database) (pool : String) (gte lt : ℤ) : Prop :=
  ∃ s ∈ db.swaps, s.poolId = pool ∧ gte ≤ s.createdAt ∧ s.createdAt < lt

/-- The five-minute candles that are stored for an hour are of buckets in which their pool has
traded. -/
def OnlyTraded (db : Database) (hour : ℤ) : Prop :=
  ∀ pool start, (db.candles.get ⟨pool, fiveMinutes.text, start⟩).isSome → hour ≤ start →
    start < hour + oneHour.ms →
    start ∈ hourBuckets hour ∧ Traded db pool start (start + fiveMinutes.ms)

section Read

variable {db : Database} {pool : String} {gte lt : ℤ} {interval : String}

/-- All swaps in order. -/
def Database.ordered (db : Database) : List SwapProcessed :=
  db.swaps.insertionSort SwapProcessed.Earlier

theorem pairwise_ordered (db : Database) :
    db.ordered.Pairwise fun s s' => s.createdAt ≤ s'.createdAt :=
  List.pairwise_insertionSort SwapProcessed.Earlier _

theorem findSwaps_eq : db.findSwaps gte lt
    = db.ordered.filter fun s => gte ≤ s.createdAt ∧ s.createdAt < lt :=
  (Sorting.filter_insertionSort db.swaps).symm

theorem mem_findSwaps {s : SwapProcessed} :
    s ∈ db.findSwaps gte lt ↔ s ∈ db.swaps ∧ gte ≤ s.createdAt ∧ s.createdAt < lt := by
  rw [Database.findSwaps, List.mem_insertionSort, List.mem_filter, decide_eq_true_eq]

/-- A pool without swaps has no candle. -/
theorem total_swapRows_eq_zero_iff :
    total (db.swapRows gte lt) pool = 0 ↔ ¬ Traded db pool gte lt := by
  rw [total_eq_zero_iff, Database.swapRows, List.forall_mem_map]
  constructor
  · rintro h ⟨s, hs, hpool, hwindow⟩
    exact h s (mem_findSwaps.mpr ⟨hs, hwindow⟩) hpool
  · intro h s hs hpool
    obtain ⟨hs, hwindow⟩ := mem_findSwaps.mp hs
    exact h ⟨s, hs, hpool, hwindow⟩

theorem mem_findCandles {e : CandleKey × Ohlcv} : e ∈ db.findCandles interval gte lt ↔
    db.candles.get e.1 = some e.2 ∧ e.1.interval = interval ∧ gte ≤ e.1.periodStart ∧
      e.1.periodStart < lt := by
  rw [Database.findCandles, List.mem_insertionSort, List.mem_filter, decide_eq_true_eq,
    OrderedMap.get_eq_some]
  rfl

/-- The candles of one pool that are read rise strictly in their starts. -/
theorem pairwise_findCandles :
    ((db.findCandles interval gte lt).filter fun e => e.1.poolId = pool).Pairwise
      fun e e' => e.1.periodStart < e'.1.periodStart := by
  have hsorted : (db.findCandles interval gte lt).Pairwise
      fun e e' => e.1.periodStart ≤ e'.1.periodStart := List.pairwise_insertionSort Earlier _
  have hnodup : ((db.findCandles interval gte lt).map Prod.fst).Nodup :=
    (((List.perm_insertionSort _ _).map _).nodup_iff).mpr
      ((List.filter_sublist.map _).nodup db.candles.nodup)
  have hboth := (hsorted.and (List.pairwise_map.mp hnodup)).filter
    (p := fun e => decide (e.1.poolId = pool))
  refine hboth.imp_of_mem fun {e e'} he he' ⟨hle, hne⟩ => lt_of_le_of_ne hle fun heq => hne ?_
  obtain ⟨he, hpool⟩ := List.mem_filter.mp he
  obtain ⟨he', hpool'⟩ := List.mem_filter.mp he'
  have hpools := (of_decide_eq_true hpool).trans (of_decide_eq_true hpool').symm
  have hintervals := (mem_findCandles.mp he).2.1.trans (mem_findCandles.mp he').2.1.symm
  exact congrArg₂ (fun f start => f start) (congrArg₂ CandleKey.mk hpools hintervals) heq

/-- The pools that accumulate a candle are those with one in the window. -/
theorem isSome_accumulated_iff :
    ((accumulateAll ((db.findCandles interval gte lt).map row)).get pool).isSome
      ↔ ∃ start, (db.candles.get ⟨pool, interval, start⟩).isSome ∧ gte ≤ start ∧ start < lt := by
  rw [Option.isSome_iff_ne_none, ne_eq, ← summand_eq_zero]
  show ¬ candleOf _ pool = 0 ↔ _
  rw [candleOf_accumulateAll, total_eq_zero_iff, List.forall_mem_map]
  simp only [not_forall, not_not, mem_findCandles]
  constructor
  · rintro ⟨⟨⟨_, _, start⟩, c⟩, ⟨hget, hinterval, hwindow⟩, hpool⟩
    obtain rfl : _ = pool := hpool
    dsimp only at hget hinterval hwindow
    subst hinterval
    exact ⟨start, Option.isSome_of_eq_some hget, hwindow⟩
  · rintro ⟨start, hsome, hwindow⟩
    obtain ⟨c, hget⟩ := Option.isSome_iff_exists.mp hsome
    exact ⟨(⟨pool, interval, start⟩, c), ⟨hget, rfl, hwindow⟩, rfl⟩

end Read

/-! ### From windows to the whole -/

section Windows

variable {db : Database} {pool : String}

/-- The swaps of a window, and those of the next. -/
theorem swapRows_append {a b c : ℤ} (hab : a ≤ b) (hbc : b ≤ c) :
    db.swapRows a b ++ db.swapRows b c = db.swapRows a c := by
  rw [Database.swapRows, Database.swapRows, Database.swapRows, ← List.map_append, findSwaps_eq,
    findSwaps_eq, findSwaps_eq, Sorting.filter_window_append (pairwise_ordered db) hab hbc]

theorem total_swapRows_self (a : ℤ) : total (db.swapRows a a) pool = 0 := by
  rw [total_swapRows_eq_zero_iff]
  rintro ⟨s, -, -, hle, hlt⟩
  omega

/-- **The candles of windows one after the other add up** to that of the whole. -/
theorem total_windows {step : ℤ} (hstep : 0 < step) (k : ℕ) (a : ℤ) :
    ((Counting.upTo a (a + k * step) step).map fun t => total (db.swapRows t (t + step)) pool).sum
      = total (db.swapRows a (a + k * step)) pool := by
  induction k generalizing a with
  | zero =>
    have hempty : a + ((0 : ℕ) : ℤ) * step = a := by simp
    rw [hempty, Counting.upTo_of_le hstep le_rfl, total_swapRows_self]
    rfl
  | succ k ih =>
    have hend : a + ((k + 1 : ℕ) : ℤ) * step = a + step + k * step := by
      push_cast
      ring
    have hrest : 0 ≤ (k : ℤ) * step := mul_nonneg (Int.natCast_nonneg k) hstep.le
    rw [hend, Counting.upTo_of_lt hstep (by omega), List.map_cons, List.sum_cons, ih,
      ← total_append, swapRows_append (by omega) (by omega)]

end Windows

/-! ### The buckets of an hour -/

section Buckets

variable {db db' : Database} {interval : CandleInterval} {gapPolicy : CandleGapPolicy}
  {correlationId : String} {periodStart hour : ℤ} {pool : String} {key : CandleKey}

theorem aggregatePeriod_of_swaps (h : interval.bucketSource = none) :
    aggregatePeriod db interval periodStart gapPolicy correlationId
      = .ok ((directCandles db periodStart (periodStart + interval.ms)).size,
          db.upsertAll interval periodStart
            (directCandles db periodStart (periodStart + interval.ms))) := by
  rw [aggregatePeriod, periodCandles, h]
  rfl

/-- **What the candles of periods are written over.** -/
theorem get_aggregatePeriods (h : interval.bucketSource = none) (starts : List ℤ) (db : Database) :
    ∃ db', aggregatePeriods interval gapPolicy correlationId starts db = .ok db' ∧
      db'.swaps = db.swaps ∧ ∀ key, db'.candles.get key
        = if key.interval = interval.text ∧ key.periodStart ∈ starts then
            ((directCandles db key.periodStart (key.periodStart + interval.ms)).get key.poolId).or
              (db.candles.get key)
          else db.candles.get key := by
  induction starts generalizing db with
  | nil =>
    refine ⟨db, rfl, rfl, fun key => ?_⟩
    rw [if_neg (by simp)]
  | cons start starts ih =>
    obtain ⟨db', hrun, hswaps, hget⟩ := ih
      (db.upsertAll interval start (directCandles db start (start + interval.ms)))
    refine ⟨db', ?_, hswaps, fun key => ?_⟩
    · rw [aggregatePeriods, List.foldlM_cons, aggregatePeriod_of_swaps h]
      exact hrun
    · -- the candles are computed from the swaps, which no write changes
      have hdirect : ∀ a b, directCandles
          (db.upsertAll interval start (directCandles db start (start + interval.ms))) a b
          = directCandles db a b := fun a b => rfl
      rw [hget, hdirect, get_upsertAll]
      by_cases hinterval : key.interval = interval.text
      · by_cases hstart : key.periodStart = start
        · rw [hstart]
          simp only [hinterval, true_and, List.mem_cons, true_or, if_true]
          split
          · rw [← Option.or_assoc, Option.or_self]
          · rfl
        · simp [hinterval, hstart]
      · simp [hinterval]

theorem sum_filterMap (starts : List ℤ) (f : ℤ → Option Ohlcv) :
    ((starts.filterMap f).map fun c : Ohlcv => (c : WithZero Ohlcv)).sum
      = (starts.map fun t => summand (f t)).sum := by
  induction starts with
  | nil => rfl
  | cons t starts ih =>
    cases hf : f t with
    | none =>
      rw [List.filterMap_cons_none hf, ih, List.map_cons, List.sum_cons, hf]
      exact (zero_add _).symm
    | some c =>
      rw [List.filterMap_cons_some hf, List.map_cons, List.sum_cons, ih, List.map_cons,
        List.sum_cons, hf]
      rfl

theorem pairwise_hourBuckets (hour : ℤ) : (hourBuckets hour).Pairwise (· < ·) :=
  Counting.pairwise_upTo (ms_pos fiveMinutes)

theorem mem_hourBuckets {t : ℤ} (h : t ∈ hourBuckets hour) :
    hour ≤ t ∧ t < hour + oneHour.ms := by
  obtain ⟨hle, hlt, -⟩ := (Counting.mem_upTo (ms_pos fiveMinutes)).mp h
  exact ⟨hle, hlt⟩

/-- The stored buckets of a pool add up to the candle of its rows, if all lie at the starts of
buckets. -/
theorem total_findCandles (h : ∀ start, (db.candles.get ⟨pool, fiveMinutes.text, start⟩).isSome →
    hour ≤ start → start < hour + oneHour.ms → start ∈ hourBuckets hour) :
    total ((db.findCandles fiveMinutes.text hour (hour + oneHour.ms)).map row) pool
      = ((hourBuckets hour).map fun t =>
          summand (db.candles.get ⟨pool, fiveMinutes.text, t⟩)).sum := by
  -- the rows of the pool, in the order of their starts
  have hrows : (db.findCandles fiveMinutes.text hour (hour + oneHour.ms)).filter
      (fun e => e.1.poolId = pool)
      = (hourBuckets hour).filterMap fun t =>
          (db.candles.get ⟨pool, fiveMinutes.text, t⟩).map fun c =>
            (⟨pool, fiveMinutes.text, t⟩, c) := by
    refine Sorting.eq_of_mem_iff pairwise_findCandles ?_ fun e => ?_
    · refine List.pairwise_filterMap.mpr ((pairwise_hourBuckets hour).imp ?_)
      intro t t' hlt e he e' he'
      obtain ⟨c, -, rfl⟩ := Option.map_eq_some_iff.mp he
      obtain ⟨c', -, rfl⟩ := Option.map_eq_some_iff.mp he'
      exact hlt
    · rw [List.mem_filter, mem_findCandles, decide_eq_true_eq, List.mem_filterMap]
      constructor
      · rintro ⟨⟨hget, hinterval, hle, hlt⟩, hpool⟩
        obtain ⟨⟨_, _, start⟩, c⟩ := e
        dsimp only at hget hinterval hle hlt hpool
        subst hinterval hpool
        exact ⟨start, h start (Option.isSome_of_eq_some hget) hle hlt, by rw [hget]; rfl⟩
      · rintro ⟨t, ht, he⟩
        obtain ⟨c, hget, rfl⟩ := Option.map_eq_some_iff.mp he
        exact ⟨⟨hget, rfl, mem_hourBuckets ht⟩, rfl⟩
  have hpool : ((db.findCandles fiveMinutes.text hour (hour + oneHour.ms)).map row).filter
      (fun row => row.1 = pool)
      = ((db.findCandles fiveMinutes.text hour (hour + oneHour.ms)).filter
          (fun e => e.1.poolId = pool)).map row := by
    rw [List.filter_map]
    rfl
  rw [total, hpool, hrows, ← sum_filterMap, List.map_map, List.map_filterMap, List.map_filterMap]
  congr 2
  funext t
  cases db.candles.get ⟨pool, fiveMinutes.text, t⟩ <;> rfl

theorem candleOf_directCandles (db : Database) (gte lt : ℤ) (pool : String) :
    candleOf (directCandles db gte lt) pool = total (db.swapRows gte lt) pool :=
  candleOf_accumulateAll

/-- The pools that have traded are those with a candle. -/
theorem get_directCandles_eq_none {gte lt : ℤ} :
    (directCandles db gte lt).get pool = none ↔ ¬ Traded db pool gte lt := by
  rw [← total_swapRows_eq_zero_iff, ← candleOf_directCandles]
  exact summand_eq_zero.symm

theorem isSome_directCandles_iff {gte lt : ℤ} :
    ((directCandles db gte lt).get pool).isSome ↔ Traded db pool gte lt := by
  rw [Option.isSome_iff_ne_none, ne_eq, get_directCandles_eq_none, not_not]

/-- After its computation the stored candle of a bucket is that of its swaps. -/
theorem summand_bucket {old : Option Ohlcv} {gte lt : ℤ}
    (hold : old.isSome → Traded db pool gte lt) :
    summand (((directCandles db gte lt).get pool).or old) = total (db.swapRows gte lt) pool := by
  rw [← candleOf_directCandles]
  cases hget : (directCandles db gte lt).get pool with
  | some c => rw [Option.some_or, candleOf, hget]
  | none =>
    have hnone : old = none := by
      by_contra hne
      exact get_directCandles_eq_none.mp hget (hold (Option.isSome_iff_ne_none.mpr hne))
    rw [hnone, candleOf, hget]
    rfl

/-- The hour's candles from stored buckets. -/
theorem aggregatePeriod_oneHour :
    aggregatePeriod db oneHour hour .fill correlationId
      = .ok ((accumulateAll
            ((db.findCandles fiveMinutes.text hour (hour + oneHour.ms)).map row)).size,
          db.upsertAll oneHour hour (accumulateAll
            ((db.findCandles fiveMinutes.text hour (hour + oneHour.ms)).map row))) := rfl

/-- The candle of the hour from computed buckets is that from the swaps. -/
theorem get_oneHour_eq {db' : Database} (hstored : OnlyTraded db hour)
    (hget : ∀ key, db'.candles.get key
      = if key.interval = fiveMinutes.text ∧ key.periodStart ∈ hourBuckets hour then
          ((directCandles db key.periodStart (key.periodStart + fiveMinutes.ms)).get
            key.poolId).or (db.candles.get key)
        else db.candles.get key) (pool : String) :
    (accumulateAll
        ((db'.findCandles fiveMinutes.text hour (hour + oneHour.ms)).map row)).get pool
      = (directCandles db hour (hour + oneHour.ms)).get pool := by
  have hinside : ∀ start, (db'.candles.get ⟨pool, fiveMinutes.text, start⟩).isSome →
      hour ≤ start → start < hour + oneHour.ms → start ∈ hourBuckets hour := by
    intro start hsome hle hlt
    rw [hget] at hsome
    by_cases hin : start ∈ hourBuckets hour
    · exact hin
    · rw [if_neg fun h => hin h.2] at hsome
      exact (hstored pool start hsome hle hlt).1
  have hbucket : ∀ t ∈ hourBuckets hour,
      summand (db'.candles.get ⟨pool, fiveMinutes.text, t⟩)
        = total (db.swapRows t (t + fiveMinutes.ms)) pool := by
    intro t ht
    obtain ⟨hle, hlt⟩ := mem_hourBuckets ht
    rw [hget, if_pos ⟨rfl, ht⟩]
    exact summand_bucket fun hsome => (hstored pool t hsome hle hlt).2
  have hwhole : hour + oneHour.ms = hour + ((12 : ℕ) : ℤ) * fiveMinutes.ms := rfl
  refine summand_inj.mp ?_
  show candleOf (accumulateAll _) pool = candleOf (directCandles _ _ _) pool
  calc candleOf (accumulateAll
        ((db'.findCandles fiveMinutes.text hour (hour + oneHour.ms)).map row)) pool
      = ((hourBuckets hour).map fun t =>
          summand (db'.candles.get ⟨pool, fiveMinutes.text, t⟩)).sum := by
        rw [candleOf_accumulateAll, total_findCandles hinside]
    _ = ((hourBuckets hour).map fun t =>
          total (db.swapRows t (t + fiveMinutes.ms)) pool).sum := by
        rw [List.map_congr_left hbucket]
    _ = total (db.swapRows hour (hour + oneHour.ms)) pool := by
        rw [hourBuckets, hwhole, total_windows (ms_pos fiveMinutes)]
    _ = candleOf (directCandles db hour (hour + oneHour.ms)) pool :=
        (candleOf_directCandles ..).symm

end Buckets

/-- **The candle of an hour from its buckets is that from its swaps.** After the candles of the
twelve buckets have been computed, the candle of the hour that they make is, for every pool, the one
that its swaps in the hour make when they are accumulated directly; a pool that has not traded has
none written. -/
theorem hourly_eq_direct (db : Database) (hour : ℤ) (gapPolicy : CandleGapPolicy)
    (correlationId : String) (hstored : OnlyTraded db hour) :
    ∃ db' db'' written,
      aggregatePeriods fiveMinutes gapPolicy correlationId (hourBuckets hour) db = .ok db' ∧
      aggregatePeriod db' oneHour hour .fill correlationId = .ok (written, db'') ∧
      written = (directCandles db hour (hour + oneHour.ms)).size ∧
      ∀ pool,
        (Traded db pool hour (hour + oneHour.ms) →
          ∃ c, (directCandles db hour (hour + oneHour.ms)).get pool = some c ∧
            db''.candles.get ⟨pool, oneHour.text, hour⟩ = some c) ∧
        (¬ Traded db pool hour (hour + oneHour.ms) →
          db''.candles.get ⟨pool, oneHour.text, hour⟩
            = db.candles.get ⟨pool, oneHour.text, hour⟩) := by
  obtain ⟨db', hrun, hswaps, hget⟩ : ∃ db', aggregatePeriods fiveMinutes gapPolicy correlationId
      (hourBuckets hour) db = .ok db' ∧ db'.swaps = db.swaps ∧ ∀ key, _ :=
    get_aggregatePeriods rfl (hourBuckets hour) db
  have hcandle := get_oneHour_eq hstored hget
  refine ⟨db', _, _, hrun, aggregatePeriod_oneHour, OrderedMap.size_congr hcandle, fun pool => ?_⟩
  have hother : db'.candles.get ⟨pool, oneHour.text, hour⟩
      = db.candles.get ⟨pool, oneHour.text, hour⟩ := by
    rw [hget, if_neg fun h => absurd h.1 (show oneHour.text ≠ fiveMinutes.text by decide)]
  rw [get_upsertAll, if_pos ⟨rfl, rfl⟩]
  dsimp only
  rw [hcandle, hother]
  constructor
  · intro htraded
    obtain ⟨c, hc⟩ := Option.isSome_iff_exists.mp (isSome_directCandles_iff.mpr htraded)
    exact ⟨c, hc, by rw [hc, Option.some_or]⟩
  · intro htraded
    rw [get_directCandles_eq_none.mpr htraded, Option.none_or]

/-- Three swaps of one pool, of which two share a bucket, and one of another pool. -/
def fourSwaps : Database where
  swaps := [⟨"A", 100, 500, 60000⟩, ⟨"B", 50, 400, 200000⟩, ⟨"A", 120, -300, 290000⟩,
    ⟨"A", 90, 200, 3599999⟩]
  candles := .empty

theorem hourly_fourSwaps : ∃ db' db'' written,
    aggregatePeriods fiveMinutes .strict "" (hourBuckets 0) fourSwaps = .ok db' ∧
      aggregatePeriod db' oneHour 0 .fill "" = .ok (written, db'') ∧ written = 2 ∧
      db''.candles.get ⟨"A", "1h", 0⟩ = some ⟨100, 120, 90, 90, 1000⟩ := by
  obtain ⟨db', db'', written, hrun, hhour, hwritten, hpools⟩ :=
    hourly_eq_direct fourSwaps 0 .strict "" fun pool start hsome => nomatch hsome
  obtain ⟨c, hdirect, hstored⟩ := (hpools "A").1
    ⟨⟨"A", 100, 500, 60000⟩, List.mem_cons_self, rfl, by decide, by decide⟩
  have hcandle : (directCandles fourSwaps 0 (0 + oneHour.ms)).get "A"
      = some ⟨100, 120, 90, 90, 1000⟩ := by decide +kernel
  refine ⟨db', db'', written, hrun, hhour, hwritten.trans (by decide +kernel), ?_⟩
  exact hstored.trans (hdirect.symm.trans hcandle)

end Swyft.Candles
