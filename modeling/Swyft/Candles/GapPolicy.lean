import Swyft.Candles.Hourly

/-!
# The strict gap policy

Under the strict policy an hour with a gap in its buckets is refused. The check looks at the buckets
of all pools together, so that a pool's missing bucket is no gap where another pool has it.

## Main definitions

* `Protects` — whatever pool a candle of the hour is written for has all of the hour's buckets

## Main results

* `assertNoGap_strict_iff` — what the check looks at
* `protects_iff` — when the policy protects every pool
-/

namespace Swyft.Candles

open Checked CandleInterval

/-- A pool has a five-minute candle at a start. -/
def HasBucket (db : Database) (pool : String) (start : ℤ) : Prop :=
  (db.candles.get ⟨pool, fiveMinutes.text, start⟩).isSome

instance (db : Database) (pool : String) (start : ℤ) : Decidable (HasBucket db pool start) :=
  inferInstanceAs (Decidable (_ = true))

/-- Whatever pool a candle of the hour is written for under the strict policy has all of the hour's
buckets. -/
def Protects (db : Database) (hour : ℤ) (correlationId : String) : Prop :=
  ∀ pool, Writes db oneHour hour .strict correlationId pool →
    ∀ t ∈ hourBuckets hour, HasBucket db pool t

section Strict

variable {db : Database} {hour : ℤ} {correlationId pool : String} {byPool : OrderedMap String Ohlcv}

/-- **The check looks for every step of the window among the starts.** -/
theorem assertNoGap_strict_iff {present : List ℤ} {windowStart windowEnd stepMs : ℤ} :
    assertNoGap present windowStart windowEnd stepMs .strict correlationId = .ok ()
      ↔ ∀ t ∈ Counting.upTo windowStart windowEnd stepMs, t ∈ present := by
  rw [assertNoGap, if_neg (by decide)]
  cases hfind : (Counting.upTo windowStart windowEnd stepMs).find? (· ∉ present) with
  | none =>
    rw [List.find?_eq_none] at hfind
    exact iff_of_true rfl fun t ht => by simpa using hfind t ht
  | some t =>
    have hmissing : t ∉ present := by simpa using List.find?_some hfind
    refine iff_of_false (fun h => nomatch h) fun hall => ?_
    exact hmissing (hall t (List.mem_of_find?_eq_some hfind))

/-- Under the strict policy some pool has each of the buckets. -/
theorem periodCandles_strict_eq_ok :
    periodCandles db oneHour hour .strict correlationId = .ok byPool ↔
      (∀ t ∈ hourBuckets hour, ∃ pool, HasBucket db pool t) ∧
        byPool = accumulateAll
          ((db.findCandles fiveMinutes.text hour (hour + oneHour.ms)).map row) := by
  show (assertNoGap _ _ _ _ _ _ >>= fun _ => pure _) = _ ↔ _
  rw [bind_eq_ok]
  have hpresent : ∀ t ∈ hourBuckets hour,
      (t ∈ (db.findCandles fiveMinutes.text hour (hour + oneHour.ms)).map
        (fun b => b.1.periodStart) ↔ ∃ pool, HasBucket db pool t) := by
    intro t ht
    rw [List.mem_map]
    constructor
    · rintro ⟨⟨⟨pool, _, _⟩, c⟩, he, rfl⟩
      obtain ⟨hget, hinterval, -⟩ := mem_findCandles.mp he
      dsimp only at hget hinterval
      subst hinterval
      exact ⟨pool, Option.isSome_of_eq_some hget⟩
    · rintro ⟨pool, hsome⟩
      obtain ⟨c, hget⟩ := Option.isSome_iff_exists.mp hsome
      exact ⟨(⟨pool, fiveMinutes.text, t⟩, c),
        mem_findCandles.mpr ⟨hget, rfl, mem_hourBuckets ht⟩, rfl⟩
  constructor
  · rintro ⟨_, hgap, heq⟩
    refine ⟨fun t ht => (hpresent t ht).mp ?_, (pure_eq_ok.mp heq).symm⟩
    exact assertNoGap_strict_iff.mp hgap t ht
  · rintro ⟨hall, rfl⟩
    exact ⟨(), assertNoGap_strict_iff.mpr fun t ht => (hpresent t ht).mpr (hall t ht), rfl⟩

end Strict

/-- **The strict policy protects every pool** exactly where one of the hour's buckets is missing
from all pools, so that nothing is written, or no pool with a bucket in the hour misses one. -/
theorem protects_iff (db : Database) (hour : ℤ) (correlationId : String) :
    Protects db hour correlationId ↔
      (∃ t ∈ hourBuckets hour, ∀ pool, ¬ HasBucket db pool t) ∨
        ∀ pool start, HasBucket db pool start → hour ≤ start → start < hour + oneHour.ms →
          ∀ t ∈ hourBuckets hour, HasBucket db pool t := by
  by_cases hgap : ∀ t ∈ hourBuckets hour, ∃ pool, HasBucket db pool t
  · have hnever : ¬ ∃ t ∈ hourBuckets hour, ∀ pool, ¬ HasBucket db pool t := by
      rintro ⟨t, ht, hmissing⟩
      obtain ⟨pool, hpool⟩ := hgap t ht
      exact hmissing pool hpool
    rw [or_iff_right hnever]
    constructor
    · intro h pool start hbucket hle hlt
      exact h pool ⟨_, periodCandles_strict_eq_ok.mpr ⟨hgap, rfl⟩,
        isSome_accumulated_iff.mpr ⟨start, hbucket, hle, hlt⟩⟩
    · rintro h pool ⟨byPool, hrun, hsome⟩
      obtain ⟨-, rfl⟩ := periodCandles_strict_eq_ok.mp hrun
      obtain ⟨start, hbucket, hle, hlt⟩ := isSome_accumulated_iff.mp hsome
      exact h pool start hbucket hle hlt
  · refine iff_of_true (fun pool ⟨byPool, hrun, _⟩ => ?_) (.inl ?_)
    · exact absurd (periodCandles_strict_eq_ok.mp hrun).1 hgap
    · push Not at hgap
      exact hgap

/-- Pool `B` has the candles of all twelve buckets of an hour, pool `A` that of the first. -/
def oneBucket : Database where
  swaps := []
  candles := OrderedMap.empty.setAll
    ((⟨"A", "5m", 0⟩, ⟨1, 1, 1, 1, 1⟩) ::
      (hourBuckets 0).map fun t => (⟨"B", "5m", t⟩, ⟨2, 2, 2, 2, 2⟩))

/-- **The hour's candle of pool `A` is written**, from one of twelve buckets. -/
theorem hour_written_from_one_bucket : ¬ Protects oneBucket 0 "" := by
  have hwritten : Yields (periodCandles oneBucket oneHour 0 .strict "")
      fun byPool => (byPool.get "A").isSome := by decide +kernel
  have hmissing : ¬ HasBucket oneBucket "A" 300000 := by decide +kernel
  obtain ⟨byPool, hrun, hsome⟩ := yields_iff.mp hwritten
  intro h
  exact hmissing (h "A" ⟨byPool, hrun, hsome⟩ 300000 (by decide +kernel))

end Swyft.Candles
