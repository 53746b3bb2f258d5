import Swyft.JsDate
import Swyft.Lib.Checked
import Swyft.Lib.Counting
import Swyft.Lib.OrderedMap
import Swyft.Lib.Sorting
import Mathlib.Algebra.Group.WithOne.Defs
import Mathlib.Algebra.Order.Ring.Rat

/-!
# Candles

`apps/api/src/candles/candles.service.ts`: the candles of a period are computed from the swaps of
the period, those of an hour from its five-minute candles, and are written over the ones that are
stored.

Prices and volumes are exact rationals, and a swap holds the numbers that `Number` makes of its
texts. The database answers every request and keeps the rows of equal rank in the order it has
them. What a log says is left out, as is the identifier of a row.

## Main definitions

* `Database` — the swaps, and the candles under their unique key
* `accumulate` — the entry of a pool goes on with a candle
* `aggregatePeriod`, `aggregate`, `backfill` — the source functions
* `Writes` — `aggregatePeriod` writes a candle for a pool

## Main results

* `candleOf_accumulateAll` — the entry of a pool is the sum of its candles
* `get_upsertAll` — what a period's candles are written over
* `get_aggregatePeriod` — what is written is stored
-/

namespace Swyft.Candles

open Checked

/-! ### Candles and swaps -/

inductive CandleInterval where
  | oneMinute
  | fiveMinutes
  | oneHour
  | oneDay
  deriving DecidableEq

namespace CandleInterval

/-- The text of an interval. -/
def text : CandleInterval → String
  | oneMinute => "1m"
  | fiveMinutes => "5m"
  | oneHour => "1h"
  | oneDay => "1d"

/-- `INTERVAL_MS`. -/
def ms : CandleInterval → ℤ
  | oneMinute => 60000
  | fiveMinutes => 300000
  | oneHour => 3600000
  | oneDay => 86400000

/-- `BUCKET_SOURCE`. -/
def bucketSource : CandleInterval → Option CandleInterval
  | oneHour => some fiveMinutes
  | _ => none

/-- The keys of `INTERVAL_MS`. -/
def all : List CandleInterval := [oneMinute, fiveMinutes, oneHour, oneDay]

theorem ms_pos (interval : CandleInterval) : 0 < interval.ms := by
  cases interval <;> decide

end CandleInterval

inductive CandleErrorCode where
  | invalidInterval
  | unauthorized
  | dependencyUnavailable
  | concurrentProcessing
  deriving DecidableEq

structure CandleError where
  code : CandleErrorCode
  message : String
  correlationId : String
  deriving DecidableEq

inductive CandleGapPolicy where
  | strict
  | fill
  deriving DecidableEq

/-- `opening` is the source's `open`. -/
@[ext]
structure Ohlcv where
  opening : ℚ
  high : ℚ
  low : ℚ
  close : ℚ
  volumeUsd : ℚ
  deriving DecidableEq

/-- What is read of an actor. -/
structure CandleActor where
  roles : List String

/-- What is read of a recorded swap. -/
structure SwapProcessed where
  poolId : String
  sqrtPriceX96 : ℚ
  amount0 : ℚ
  createdAt : ℤ

/-- The unique key of a stored candle. -/
structure CandleKey where
  poolId : String
  interval : String
  periodStart : ℤ
  deriving DecidableEq

structure Database where
  swaps : List SwapProcessed
  candles : OrderedMap CandleKey Ohlcv

/-- The order of the swaps that are read. -/
def SwapProcessed.Earlier (s s' : SwapProcessed) : Prop := s.createdAt ≤ s'.createdAt

instance : DecidableRel SwapProcessed.Earlier := fun _ _ => inferInstanceAs (Decidable (_ ≤ _))

instance : IsTrans SwapProcessed SwapProcessed.Earlier := ⟨fun _ _ _ => le_trans (α := ℤ)⟩

instance : Std.Total SwapProcessed.Earlier := ⟨fun s s' => le_total s.createdAt s'.createdAt⟩

/-- The order of the candles that are read. -/
def Earlier (e e' : CandleKey × Ohlcv) : Prop := e.1.periodStart ≤ e'.1.periodStart

instance : DecidableRel Earlier := fun _ _ => inferInstanceAs (Decidable (_ ≤ _))

instance : IsTrans (CandleKey × Ohlcv) Earlier := ⟨fun _ _ _ => le_trans (α := ℤ)⟩

instance : Std.Total Earlier := ⟨fun e e' => le_total e.1.periodStart e'.1.periodStart⟩

/-- `swapProcessed.findMany` of a window of time. -/
def Database.findSwaps (db : Database) (gte lt : ℤ) : List SwapProcessed :=
  (db.swaps.filter fun s => gte ≤ s.createdAt ∧ s.createdAt < lt).insertionSort
    SwapProcessed.Earlier

/-- `priceCandle.findMany` of a window of time. -/
def Database.findCandles (db : Database) (interval : String) (gte lt : ℤ) :
    List (CandleKey × Ohlcv) :=
  (db.candles.entries.filter fun e =>
    e.1.interval = interval ∧ gte ≤ e.1.periodStart ∧ e.1.periodStart < lt).insertionSort Earlier

/-! ### The candles of a period -/

/-- `accumulate`. -/
def accumulate (byPool : OrderedMap String Ohlcv) (poolId : String) (c : Ohlcv) :
    OrderedMap String Ohlcv :=
  match byPool.get poolId with
  | none => byPool.set poolId c
  | some existing =>
    byPool.set poolId
      { existing with
        high := max existing.high c.high
        low := min existing.low c.low
        close := c.close
        volumeUsd := existing.volumeUsd + c.volumeUsd }

/-- The loops over the swaps and over the buckets. -/
def accumulateAll (rows : List (String × Ohlcv)) : OrderedMap String Ohlcv :=
  rows.foldl (fun byPool row => accumulate byPool row.1 row.2) .empty

/-- What a swap brings to the candle of its pool. -/
def SwapProcessed.row (s : SwapProcessed) : String × Ohlcv :=
  let price := s.sqrtPriceX96
  let volume := |s.amount0|
  (s.poolId, ⟨price, price, price, price, volume⟩)

/-- What a candle brings to the candle of its pool. -/
def row (e : CandleKey × Ohlcv) : String × Ohlcv := (e.1.poolId, e.2)

/-- `toISOString`, of a time that a date can hold. -/
def isoText (t : ℤ) : String := String.ofList (Js.isoChars t)

/-- `assertNoGap`. -/
def assertNoGap (presentStarts : List ℤ) (windowStart windowEnd stepMs : ℤ)
    (gapPolicy : CandleGapPolicy) (correlationId : String) : Except CandleError Unit :=
  if gapPolicy = .fill then pure ()
  else
    match (Counting.upTo windowStart windowEnd stepMs).find? (· ∉ presentStarts) with
    | none => pure ()
    | some t => .error {
        code := .dependencyUnavailable
        message := "Candle gap detected at " ++ isoText t ++
          "; refusing to write under strict policy"
        correlationId }

/-- `byPool` of `aggregatePeriod`. -/
def periodCandles (db : Database) (interval : CandleInterval) (periodStart : ℤ)
    (gapPolicy : CandleGapPolicy) (correlationId : String) :
    Except CandleError (OrderedMap String Ohlcv) := do
  let periodEnd := periodStart + interval.ms
  match interval.bucketSource with
  | some sourceInterval => do
    let buckets := db.findCandles sourceInterval.text periodStart periodEnd
    assertNoGap (buckets.map fun b => b.1.periodStart) periodStart periodEnd sourceInterval.ms
      gapPolicy correlationId
    pure (accumulateAll (buckets.map row))
  | none => pure (accumulateAll ((db.findSwaps periodStart periodEnd).map SwapProcessed.row))

/-- The `upsert` of every entry of `byPool`. -/
def Database.upsertAll (db : Database) (interval : CandleInterval) (periodStart : ℤ)
    (byPool : OrderedMap String Ohlcv) : Database :=
  { db with
    candles := db.candles.setAll
      (byPool.entries.map fun e => (⟨e.1, interval.text, periodStart⟩, e.2)) }

/-- `aggregatePeriod`. -/
def aggregatePeriod (db : Database) (interval : CandleInterval) (periodStart : ℤ)
    (gapPolicy : CandleGapPolicy) (correlationId : String) : Except CandleError (ℕ × Database) := do
  let byPool ← periodCandles db interval periodStart gapPolicy correlationId
  pure (byPool.size, db.upsertAll interval periodStart byPool)

/-! ### The requests -/

/-- `ALLOWED_ROLES`. -/
def allowedRoles : List String := ["admin", "candles:write"]

/-- `authorize`. -/
def authorize (actor : Option CandleActor) (correlationId : String) : Except CandleError Unit :=
  require (∃ a ∈ actor, ∃ r ∈ a.roles, r ∈ allowedRoles) {
    code := .unauthorized
    message := "Caller is not authorized to process candles"
    correlationId }

/-- `assertInterval`, returning the interval that has the text. -/
def assertInterval (interval : String) (correlationId : String) :
    Except CandleError CandleInterval :=
  getOr {
    code := .invalidInterval
    message := "Unsupported candle interval: " ++ interval
    correlationId } (CandleInterval.all.find? fun i => i.text = interval)

theorem assertInterval_text (interval : CandleInterval) (correlationId : String) :
    assertInterval interval.text correlationId = .ok interval := by
  cases interval <;> rfl

/-- `runExclusive`. The key is in the set for as long as `fn` runs, and leaves it however `fn`
ends. -/
def runExclusive {α : Type} (inFlight : List String) (key correlationId : String)
    (fn : Except CandleError α) : Except CandleError α := do
  require (key ∉ inFlight) {
    code := .concurrentProcessing
    message := "Concurrent processing for " ++ key ++ " rejected"
    correlationId }
  fn

/-- The start of the period of length `ms` that a time falls in. -/
def floorTo (ms t : ℤ) : ℤ := t / ms * ms

/-- `aggregate`, at the time `now`. -/
def aggregate (db : Database) (inFlight : List String) (interval : String)
    (actor : Option CandleActor) (now : ℤ) (correlationId : String) (gapPolicy : CandleGapPolicy) :
    Except CandleError (ℕ × Database) := do
  authorize actor correlationId
  let interval ← assertInterval interval correlationId
  let periodStart := floorTo interval.ms (now - interval.ms)
  runExclusive inFlight (interval.text ++ ":" ++ isoText periodStart) correlationId
    (aggregatePeriod db interval periodStart gapPolicy correlationId)

/-- The loop of `backfill`. Candles written before an error stay. -/
def backfillLoop (inFlight : List String) (interval : CandleInterval) (gapPolicy : CandleGapPolicy)
    (correlationId : String) : List ℤ → ℕ → Database → Database × Except CandleError ℕ
  | [], written, db => (db, pure written)
  | periodStart :: starts, written, db =>
    match runExclusive inFlight (interval.text ++ ":" ++ isoText periodStart) correlationId
      (aggregatePeriod db interval periodStart gapPolicy correlationId) with
    | .error e => (db, .error e)
    | .ok (n, db') =>
      backfillLoop inFlight interval gapPolicy correlationId starts (written + n) db'

/-- `backfill`, at the time `now`: the database after it, and how many candles it wrote. -/
def backfill (db : Database) (inFlight : List String) (interval : String)
    (actor : Option CandleActor) (now : ℤ) (correlationId : String) (gapPolicy : CandleGapPolicy) :
    Database × Except CandleError ℕ :=
  match (do authorize actor correlationId; assertInterval interval correlationId) with
  | .error e => (db, .error e)
  | .ok interval =>
    match (db.swaps.insertionSort SwapProcessed.Earlier).head? with
    | none => (db, pure 0)
    | some firstSwap =>
      let periodStart := floorTo interval.ms firstSwap.createdAt
      let lastPeriodStart := floorTo interval.ms (now - interval.ms)
      backfillLoop inFlight interval gapPolicy correlationId
        (Counting.upTo periodStart lastPeriodStart interval.ms) 0 db

/-! ### Candles add up -/

/-- A candle and a later one make the candle of both. -/
instance : AddSemigroup Ohlcv where
  add c c' := ⟨c.opening, max c.high c'.high, min c.low c'.low, c'.close,
    c.volumeUsd + c'.volumeUsd⟩
  add_assoc a b c := by
    ext
    · rfl
    · exact max_assoc a.high b.high c.high
    · exact min_assoc a.low b.low c.low
    · rfl
    · exact add_assoc a.volumeUsd b.volumeUsd c.volumeUsd

/-- A candle as a summand, zero where there is none. -/
def summand (c : Option Ohlcv) : WithZero Ohlcv := c

theorem summand_inj {c c' : Option Ohlcv} : summand c = summand c' ↔ c = c' := Iff.rfl

theorem summand_eq_zero {c : Option Ohlcv} : summand c = 0 ↔ c = none := Iff.rfl

/-- The candle of a pool, zero where it has none. -/
def candleOf (byPool : OrderedMap String Ohlcv) (pool : String) : WithZero Ohlcv :=
  summand (byPool.get pool)

/-- The sum of the candles of a pool. -/
def total (rows : List (String × Ohlcv)) (pool : String) : WithZero Ohlcv :=
  ((rows.filter fun row => row.1 = pool).map fun row => (row.2 : WithZero Ohlcv)).sum

section Totals

variable {rows rows' : List (String × Ohlcv)} {pool pool' : String} {c : Ohlcv}
  {byPool : OrderedMap String Ohlcv} {db : Database} {interval : CandleInterval}
  {periodStart : ℤ} {key : CandleKey}

theorem candleOf_accumulate : candleOf (accumulate byPool pool c) pool'
    = candleOf byPool pool' + if pool = pool' then (c : WithZero Ohlcv) else 0 := by
  rw [accumulate]
  by_cases h : pool = pool'
  · subst h
    rw [if_pos rfl]
    cases hget : byPool.get pool with
    | none =>
      have hold : candleOf byPool pool = 0 := hget
      have hnew : candleOf (byPool.set pool c) pool = c := by
        rw [candleOf, OrderedMap.get_set, if_pos rfl]
        rfl
      rw [hold, zero_add]
      exact hnew
    | some existing =>
      have hold : candleOf byPool pool = (existing : WithZero Ohlcv) := hget
      have hnew : candleOf (byPool.set pool (existing + c)) pool = ((existing + c : Ohlcv) :) := by
        rw [candleOf, OrderedMap.get_set, if_pos rfl]
        rfl
      rw [hold]
      exact hnew
  · have hother : ∀ v, (byPool.set pool v).get pool' = byPool.get pool' := fun v => by
      rw [OrderedMap.get_set, if_neg (Ne.symm h)]
    rw [if_neg h, add_zero]
    cases byPool.get pool with
    | none => exact hother _
    | some existing => exact hother _

theorem total_cons (row : String × Ohlcv) : total (row :: rows) pool
    = (if row.1 = pool then (row.2 : WithZero Ohlcv) else 0) + total rows pool := by
  by_cases h : row.1 = pool
  · rw [total, List.filter_cons_of_pos (by simpa using h), List.map_cons, List.sum_cons, if_pos h]
    rfl
  · rw [total, List.filter_cons_of_neg (by simpa using h), if_neg h, zero_add]
    rfl

/-- Candles in two parts. -/
theorem total_append : total (rows ++ rows') pool = total rows pool + total rows' pool := by
  rw [total, List.filter_append, List.map_append, List.sum_append]
  rfl

theorem candleOf_foldl : candleOf (rows.foldl (fun byPool row => accumulate byPool row.1 row.2)
    byPool) pool = candleOf byPool pool + total rows pool := by
  induction rows generalizing byPool with
  | nil => exact (add_zero _).symm
  | cons row rows ih => rw [List.foldl_cons, ih, candleOf_accumulate, total_cons, add_assoc]

/-- **The entry of a pool is the sum of its candles.** -/
theorem candleOf_accumulateAll : candleOf (accumulateAll rows) pool = total rows pool := by
  rw [accumulateAll, candleOf_foldl]
  exact zero_add _

/-- A pool without candles is one without rows. -/
theorem total_eq_zero_iff : total rows pool = 0 ↔ ∀ row ∈ rows, row.1 ≠ pool := by
  induction rows with
  | nil => simp [total]
  | cons row rows ih =>
    rw [total_cons, List.forall_mem_cons]
    by_cases h : row.1 = pool
    · rw [if_pos h]
      refine iff_of_false ?_ fun hall => hall.1 h
      rcases total rows pool with _ | c
      · exact WithZero.coe_ne_zero
      · exact WithZero.coe_ne_zero
    · rw [if_neg h, zero_add, ih]
      exact ⟨fun hall => ⟨h, hall⟩, fun hall => hall.2⟩

/-- What a period's candles are written over. -/
theorem get_upsertAll : (db.upsertAll interval periodStart byPool).candles.get key
    = if key.interval = interval.text ∧ key.periodStart = periodStart then
        (byPool.get key.poolId).or (db.candles.get key) else db.candles.get key := by
  have hkeys : (byPool.entries.map fun e =>
      ((⟨e.1, interval.text, periodStart⟩ : CandleKey), e.2)).map Prod.fst
      = (byPool.entries.map Prod.fst).map fun pool => ⟨pool, interval.text, periodStart⟩ := by
    rw [List.map_map, List.map_map]
    rfl
  have hmem : ∀ pool, (⟨pool, interval.text, periodStart⟩ : CandleKey) ∈
      (byPool.entries.map fun e =>
        ((⟨e.1, interval.text, periodStart⟩ : CandleKey), e.2)).map Prod.fst
      ↔ (byPool.get pool).isSome := fun pool => by
    rw [hkeys, List.mem_map, ← OrderedMap.mem_keys]
    constructor
    · rintro ⟨_, hpool, heq⟩
      exact (CandleKey.mk.inj heq).1 ▸ hpool
    · intro hpool
      exact ⟨pool, hpool, rfl⟩
  rw [Database.upsertAll]
  split
  case isTrue h =>
    obtain ⟨hinterval, hstart⟩ := h
    obtain ⟨pool, _, _⟩ := key
    dsimp only at hinterval hstart ⊢
    subst hinterval hstart
    cases hget : byPool.get pool with
    | none =>
      rw [Option.none_or]
      refine OrderedMap.get_setAll_of_notMem fun hin => ?_
      rw [hmem, hget] at hin
      exact absurd hin (by simp)
    | some v =>
      rw [Option.some_or]
      refine OrderedMap.get_setAll_of_mem ?_
        (List.mem_map_of_mem (f := fun e : String × Ohlcv => _) (OrderedMap.get_eq_some.mp hget))
      rw [hkeys]
      exact byPool.nodup.map fun _ _ heq => (CandleKey.mk.inj heq).1
  case isFalse h =>
    refine OrderedMap.get_setAll_of_notMem fun hin => h ?_
    rw [hkeys] at hin
    obtain ⟨pool, -, rfl⟩ := List.mem_map.mp hin
    exact ⟨rfl, rfl⟩

end Totals

/-! ### What is written -/

/-- `aggregatePeriod` writes a candle for a pool. -/
def Writes (db : Database) (interval : CandleInterval) (periodStart : ℤ)
    (gapPolicy : CandleGapPolicy) (correlationId pool : String) : Prop :=
  ∃ byPool, periodCandles db interval periodStart gapPolicy correlationId = .ok byPool ∧
    (byPool.get pool).isSome

/-- What is written is stored, and for the other pools nothing changes. -/
theorem get_aggregatePeriod {db db' : Database} {interval : CandleInterval} {periodStart : ℤ}
    {gapPolicy : CandleGapPolicy} {correlationId : String} {written : ℕ}
    (h : aggregatePeriod db interval periodStart gapPolicy correlationId = .ok (written, db'))
    (pool : String) :
    (Writes db interval periodStart gapPolicy correlationId pool →
        (db'.candles.get ⟨pool, interval.text, periodStart⟩).isSome) ∧
      (¬ Writes db interval periodStart gapPolicy correlationId pool →
        db'.candles.get ⟨pool, interval.text, periodStart⟩
          = db.candles.get ⟨pool, interval.text, periodStart⟩) := by
  obtain ⟨byPool, hrun, heq⟩ := bind_eq_ok.mp h
  obtain ⟨rfl, rfl⟩ := Prod.mk.inj (pure_eq_ok.mp heq)
  rw [get_upsertAll, if_pos ⟨rfl, rfl⟩]
  constructor
  · rintro ⟨byPool', hrun', hsome⟩
    obtain rfl := Except.ok.inj (hrun.symm.trans hrun')
    obtain ⟨c, hc⟩ := Option.isSome_iff_exists.mp hsome
    rw [hc]
    rfl
  · intro hnot
    have hnone : byPool.get pool = none := by
      by_contra hne
      exact hnot ⟨byPool, hrun, Option.isSome_iff_ne_none.mpr hne⟩
    dsimp only
    rw [hnone, Option.none_or]

end Swyft.Candles
