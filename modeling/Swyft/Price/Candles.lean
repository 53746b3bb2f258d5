import Swyft.Candles.Model

/-!
# Candles of a range

`getCandles` of `apps/api/src/price/price.service.ts` reads the candles that start in a range and
shows one for every bucket of the range, a null candle where none was found. It reads from the time
asked for, and its first bucket starts where the interval of that time does.

Times are numbers of seconds as the controller passes them, which are whole. Prices are exact
rationals and come back from their texts. Tokens are named in ASCII, and in what way the database
compares two texts without regard to case is its own.

## Main definitions

* `fillCandleGaps`, `getCandles` — the source functions
* `NothingHidden` — the first buckets, each with the candle that is stored for it

## Main results

* `getCandles_eq` — what is shown, bucket by bucket
* `nothingHidden_iff` — when no stored candle is hidden
-/

namespace Swyft.Price

open Checked Candles

structure Pool where
  id : String
  token0Address : String
  token1Address : String
  deriving DecidableEq

structure Database where
  pools : List Pool
  candles : OrderedMap CandleKey Ohlcv

/-- `opening` is the source's `open`. -/
structure PriceCandle where
  time : ℤ
  opening : Option ℚ
  high : Option ℚ
  low : Option ℚ
  close : Option ℚ
  volume : Option ℚ
  deriving DecidableEq

inductive PriceFailure where
  /-- `NotFoundException`. -/
  | notFound (message : String)
  /-- What the client of the database throws for an invalid date. -/
  | invalidDate
  deriving DecidableEq

/-! ### Gaps -/

/-- `nullCandle`. -/
def nullCandle (time : ℤ) : PriceCandle := ⟨time, none, none, none, none, none⟩

/-- The loop of `fillCandleGaps`. -/
def fillLoop (byTime : OrderedMap ℤ PriceCandle) (limit : ℤ) :
    List ℤ → List PriceCandle → List PriceCandle
  | [], filled => filled
  | t :: times, filled =>
    if filled.length < limit then
      fillLoop byTime limit times (filled ++ [(byTime.get t).getD (nullCandle t)])
    else filled

/-- `byTime` of `fillCandleGaps`. -/
def byTime (candles : List PriceCandle) : OrderedMap ℤ PriceCandle :=
  OrderedMap.empty.setAll (candles.map fun c => (c.time, c))

/-- `fillCandleGaps`. -/
def fillCandleGaps (candles : List PriceCandle) (intervalSec fromSec toSec limit : ℤ) :
    List PriceCandle :=
  if intervalSec ≤ 0 ∨ limit ≤ 0 then []
  else
    let start := floorTo intervalSec fromSec
    let stop := floorTo intervalSec toSec
    if stop < start then []
    else fillLoop (byTime candles) limit (Counting.upTo start (stop + 1) intervalSec) []

/-! ### Requests -/

/-- `getIntervalSeconds`. -/
def getIntervalSeconds : String → ℤ
  | "1m" => 60
  | "5m" => 300
  | "1h" => 3600
  | "1d" => 86400
  | _ => 3600

/-- `pool.findFirst` of a pair of tokens. -/
def Database.findPool (db : Database) (equalsInsensitive : String → String → Bool)
    (tokenALower tokenBLower : String) : Option Pool :=
  let isPair (token0 token1 : String) (p : Pool) : Bool :=
    equalsInsensitive p.token0Address token0 && equalsInsensitive p.token1Address token1
  db.pools.find? fun p => isPair tokenALower tokenBLower p || isPair tokenBLower tokenALower p

/-- `priceCandle.findMany` of a range of time. -/
def Database.findCandles (db : Database) (poolId interval : String) (gte lte : ℤ) :
    List (CandleKey × Ohlcv) :=
  (db.candles.entries.filter fun e => e.1.poolId = poolId ∧ e.1.interval = interval ∧
    gte ≤ e.1.periodStart ∧ e.1.periodStart ≤ lte).insertionSort Earlier

/-- The candle of a row. -/
def ofRow (e : CandleKey × Ohlcv) : PriceCandle where
  time := e.1.periodStart / 1000
  opening := e.2.opening
  high := e.2.high
  low := e.2.low
  close := e.2.close
  volume := e.2.volumeUsd

/-- `getCandles`. -/
def getCandles (db : Database) (equalsInsensitive : String → String → Bool)
    (tokenA tokenB interval : String) (fromSec toSec limit : ℤ) :
    Except PriceFailure (String × List PriceCandle) := do
  let pool ← getOr (.notFound ("No pool found for token pair " ++ tokenA ++ "/" ++ tokenB))
    (db.findPool equalsInsensitive tokenA.toLower tokenB.toLower)
  let fromDate := fromSec * 1000
  let toDate := toSec * 1000
  require (Js.IsDate fromDate ∧ Js.IsDate toDate) .invalidDate
  let priceCandles := db.findCandles pool.id interval fromDate toDate
  let candles := priceCandles.map ofRow
  pure (pool.id, fillCandleGaps candles (getIntervalSeconds interval) fromSec toSec limit)

/-! ### What is stored -/

/-- The candles of a pool and an interval start at its boundaries. -/
def Aligned (db : Database) (poolId interval : String) : Prop :=
  ∀ e ∈ db.candles, e.1.poolId = poolId → e.1.interval = interval →
    getIntervalSeconds interval * 1000 ∣ e.1.periodStart

/-- The candle that is stored for the bucket that starts at a time. -/
def Database.candleAt (db : Database) (poolId interval : String) (t : ℤ) : Option PriceCandle :=
  (db.candles.get ⟨poolId, interval, t * 1000⟩).map fun c => ofRow (⟨poolId, interval, t * 1000⟩, c)

/-- The buckets of a range. -/
def buckets (intervalSec fromSec toSec : ℤ) : List ℤ :=
  Counting.upTo (floorTo intervalSec fromSec) (floorTo intervalSec toSec + 1) intervalSec

/-- The first buckets in order, each with its stored candle, or a null candle where there is
none. -/
def NothingHidden (db : Database) (poolId interval : String) (fromSec toSec limit : ℤ)
    (candles : List PriceCandle) : Prop :=
  candles = ((buckets (getIntervalSeconds interval) fromSec toSec).take limit.toNat).map fun t =>
    (db.candleAt poolId interval t).getD (nullCandle t)

theorem getIntervalSeconds_pos (interval : String) : 0 < getIntervalSeconds interval := by
  unfold getIntervalSeconds
  split <;> norm_num

/-! ### The loop -/

section Loop

variable {candles : List PriceCandle} {intervalSec fromSec toSec limit : ℤ}

theorem fillLoop_eq (map : OrderedMap ℤ PriceCandle) (times : List ℤ) (filled : List PriceCandle) :
    fillLoop map limit times filled = filled ++
      (times.take (limit.toNat - filled.length)).map fun t => (map.get t).getD (nullCandle t) := by
  induction times generalizing filled with
  | nil => rw [fillLoop, List.take_nil, List.map_nil, List.append_nil]
  | cons t times ih =>
    rw [fillLoop]
    split
    case isTrue hroom =>
      have hleft : limit.toNat - filled.length
          = limit.toNat - (filled ++ [(map.get t).getD (nullCandle t)]).length + 1 := by
        rw [List.length_append, List.length_singleton]
        omega
      rw [ih, hleft, List.take_succ_cons, List.map_cons, List.append_assoc, List.singleton_append]
    case isFalse hfull =>
      have hleft : limit.toNat - filled.length = 0 := by omega
      rw [hleft, List.take_zero, List.map_nil, List.append_nil]

theorem floorTo_mono (hpos : 0 < intervalSec) (hle : fromSec ≤ toSec) :
    floorTo intervalSec fromSec ≤ floorTo intervalSec toSec :=
  mul_le_mul_of_nonneg_right (Int.ediv_le_ediv hpos hle) hpos.le

/-- What the candles that were found are filled up to. -/
theorem fillCandleGaps_eq (hpos : 0 < intervalSec) (hle : fromSec ≤ toSec) :
    fillCandleGaps candles intervalSec fromSec toSec limit
      = ((buckets intervalSec fromSec toSec).take limit.toNat).map fun t =>
        ((byTime candles).get t).getD (nullCandle t) := by
  rw [fillCandleGaps]
  split
  case isTrue h =>
    have hzero : limit.toNat = 0 := by omega
    rw [hzero, List.take_zero, List.map_nil]
  case isFalse =>
    dsimp only
    rw [if_neg (not_lt.mpr (floorTo_mono hpos hle)), fillLoop_eq, List.nil_append, List.length_nil,
      Nat.sub_zero]
    rfl

end Loop

/-! ### What is found -/

section Found

variable {db : Database} {poolId interval : String} {fromSec toSec t : ℤ}

theorem mem_findCandles {gte lte : ℤ} {e : CandleKey × Ohlcv} :
    e ∈ db.findCandles poolId interval gte lte ↔
      e ∈ db.candles ∧ e.1.poolId = poolId ∧ e.1.interval = interval ∧
        gte ≤ e.1.periodStart ∧ e.1.periodStart ≤ lte := by
  rw [Database.findCandles, List.mem_insertionSort, List.mem_filter, decide_eq_true_iff]
  exact Iff.rfl

/-- A candle that was found is known by its time. -/
theorem key_of_mem (haligned : Aligned db poolId interval) {gte lte : ℤ} {e : CandleKey × Ohlcv}
    (he : e ∈ db.findCandles poolId interval gte lte) :
    e.1 = ⟨poolId, interval, (ofRow e).time * 1000⟩ := by
  obtain ⟨hmem, hpool, hinterval, -, -⟩ := mem_findCandles.mp he
  have hwhole : (1000 : ℤ) ∣ e.1.periodStart :=
    (Dvd.intro_left _ rfl).trans (haligned e hmem hpool hinterval)
  have hstart : (ofRow e).time * 1000 = e.1.periodStart := Int.ediv_mul_cancel hwhole
  rw [hstart, ← hpool, ← hinterval]

theorem nodup_times (haligned : Aligned db poolId interval) (gte lte : ℤ) :
    ((db.findCandles poolId interval gte lte).map fun e => (ofRow e).time).Nodup := by
  have hkeys : ((db.findCandles poolId interval gte lte).map Prod.fst).Nodup := by
    have hperm := List.perm_insertionSort Earlier (db.candles.entries.filter fun e =>
      e.1.poolId = poolId ∧ e.1.interval = interval ∧ gte ≤ e.1.periodStart ∧
        e.1.periodStart ≤ lte)
    exact (hperm.map Prod.fst).nodup_iff.mpr ((List.filter_sublist.map _).nodup db.candles.nodup)
  have hnodup : (db.findCandles poolId interval gte lte).Nodup := hkeys.of_map _
  refine hnodup.map_on fun e he e' he' htime => ?_
  have hkey : e.1 = e'.1 := by rw [key_of_mem haligned he, key_of_mem haligned he', htime]
  exact List.inj_on_of_nodup_map hkeys he he' hkey

/-- **What was found for a bucket**: its candle, if it starts in the range. -/
theorem get_byTime (haligned : Aligned db poolId interval) :
    (byTime ((db.findCandles poolId interval (fromSec * 1000) (toSec * 1000)).map ofRow)).get t
      = if fromSec ≤ t ∧ t ≤ toSec then db.candleAt poolId interval t else none := by
  have hnotMem : (∀ e ∈ db.findCandles poolId interval (fromSec * 1000) (toSec * 1000),
      (ofRow e).time ≠ t) →
      (byTime ((db.findCandles poolId interval (fromSec * 1000) (toSec * 1000)).map ofRow)).get t
        = none := by
    intro hne
    refine OrderedMap.get_setAll_of_notMem fun hin => ?_
    rw [List.map_map, List.map_map] at hin
    obtain ⟨e, he, htime⟩ := List.mem_map.mp hin
    exact hne e he htime
  split
  case isTrue hrange =>
    cases hget : db.candles.get ⟨poolId, interval, t * 1000⟩ with
    | none =>
      rw [Database.candleAt, hget]
      refine hnotMem fun e he htime => ?_
      have hkey := key_of_mem haligned he
      rw [htime] at hkey
      exact OrderedMap.get_eq_none.mp hget e.2 (hkey ▸ (mem_findCandles.mp he).1)
    | some c =>
      rw [Database.candleAt, hget]
      have hfound : (⟨poolId, interval, t * 1000⟩, c) ∈
          db.findCandles poolId interval (fromSec * 1000) (toSec * 1000) :=
        mem_findCandles.mpr ⟨OrderedMap.get_eq_some.mp hget, rfl, rfl,
          mul_le_mul_of_nonneg_right hrange.1 (by decide),
          mul_le_mul_of_nonneg_right hrange.2 (by decide)⟩
      have htime : (ofRow (⟨poolId, interval, t * 1000⟩, c)).time = t :=
        Int.mul_ediv_cancel t (by decide)
      refine OrderedMap.get_setAll_of_mem ?_ ?_
      · rw [List.map_map, List.map_map]
        exact nodup_times haligned _ _
      · rw [List.map_map]
        exact List.mem_map.mpr ⟨_, hfound, Prod.ext htime rfl⟩
  case isFalse hrange =>
    refine hnotMem fun e he htime => hrange ?_
    obtain ⟨-, -, -, hfrom, hto⟩ := mem_findCandles.mp he
    rw [key_of_mem haligned he, htime] at hfrom hto
    exact ⟨le_of_mul_le_mul_right hfrom (by decide), le_of_mul_le_mul_right hto (by decide)⟩

end Found

/-! ### What is shown -/

section Shown

variable {db : Database} {equalsInsensitive : String → String → Bool}
  {tokenA tokenB interval : String} {fromSec toSec limit : ℤ} {pool : Pool}

/-- **What is shown, bucket by bucket**: nothing is found before the time asked for. -/
theorem getCandles_eq
    (hpool : db.findPool equalsInsensitive tokenA.toLower tokenB.toLower = some pool)
    (haligned : Aligned db pool.id interval) (hle : fromSec ≤ toSec)
    (hfrom : Js.IsDate (fromSec * 1000)) (hto : Js.IsDate (toSec * 1000)) :
    getCandles db equalsInsensitive tokenA tokenB interval fromSec toSec limit
      = .ok (pool.id,
        ((buckets (getIntervalSeconds interval) fromSec toSec).take limit.toNat).map fun t =>
          (if fromSec ≤ t then db.candleAt pool.id interval t else none).getD (nullCandle t)) := by
  have hpos := getIntervalSeconds_pos interval
  rw [getCandles, hpool]
  show (require _ _ >>= fun _ => _) = _
  rw [require_pos ⟨hfrom, hto⟩, ok_bind, fillCandleGaps_eq hpos hle]
  refine congrArg (fun candles => Except.ok (pool.id, candles)) (List.map_congr_left fun t ht => ?_)
  obtain ⟨-, hlt, hdvd⟩ := (Counting.mem_upTo hpos).mp (List.mem_of_mem_take ht)
  have hend : t ≤ toSec :=
    (Int.lt_add_one_iff.mp hlt).trans (Int.ediv_mul_le toSec hpos.ne')
  rw [get_byTime haligned]
  simp only [hend, and_true]

/-- The first bucket, and the others: only the first one can start before the time asked for. -/
theorem buckets_eq {intervalSec : ℤ} (hpos : 0 < intervalSec) (hle : fromSec ≤ toSec) :
    ∃ rest, buckets intervalSec fromSec toSec = floorTo intervalSec fromSec :: rest ∧
      ∀ t ∈ rest, fromSec ≤ t := by
  refine ⟨_, Counting.upTo_of_lt hpos (Int.lt_add_one_iff.mpr (floorTo_mono hpos hle)),
    fun t ht => ?_⟩
  obtain ⟨hstart, -, -⟩ := (Counting.mem_upTo hpos).mp ht
  calc fromSec ≤ (fromSec / intervalSec + 1) * intervalSec :=
        (Int.lt_ediv_add_one_mul_self fromSec hpos).le
    _ = floorTo intervalSec fromSec + intervalSec := by rw [floorTo, add_mul, one_mul]
    _ ≤ t := hstart

/-- The start of the interval of a time that is not at a boundary lies before it. -/
theorem le_floorTo_iff {intervalSec : ℤ} (hpos : 0 < intervalSec) :
    fromSec ≤ floorTo intervalSec fromSec ↔ intervalSec ∣ fromSec := by
  constructor
  · intro h
    have heq : fromSec = fromSec / intervalSec * intervalSec :=
      h.antisymm (Int.ediv_mul_le fromSec hpos.ne')
    exact Dvd.intro_left _ heq.symm
  · intro h
    exact (Int.ediv_mul_cancel h).ge

/-- A bucket is shown as it should be if it does not start before the time asked for, or if there
is nothing to show. -/
theorem shown_eq_iff {poolId : String} {t : ℤ} :
    (if fromSec ≤ t then db.candleAt poolId interval t else none).getD (nullCandle t)
        = (db.candleAt poolId interval t).getD (nullCandle t) ↔
      fromSec ≤ t ∨ db.candles.get ⟨poolId, interval, t * 1000⟩ = none := by
  by_cases hle : fromSec ≤ t
  · rw [if_pos hle]
    exact iff_of_true rfl (.inl hle)
  · rw [if_neg hle, Database.candleAt]
    cases db.candles.get ⟨poolId, interval, t * 1000⟩ with
    | none => exact iff_of_true rfl (.inr rfl)
    | some c =>
      refine iff_of_false (fun h => ?_) fun h => h.elim hle (nomatch ·)
      exact nomatch congrArg PriceCandle.opening h

/-- Of the first buckets only the first one can be wrong. -/
theorem forall_mem_buckets_iff {intervalSec : ℤ} {p : ℤ → Prop} (hpos : 0 < intervalSec)
    (hle : fromSec ≤ toSec) :
    (∀ t ∈ (buckets intervalSec fromSec toSec).take limit.toNat, fromSec ≤ t ∨ p t) ↔
      limit ≤ 0 ∨ intervalSec ∣ fromSec ∨ p (floorTo intervalSec fromSec) := by
  obtain ⟨rest, hbuckets, hrest⟩ := buckets_eq hpos hle
  rw [hbuckets, ← le_floorTo_iff hpos]
  rcases le_or_gt limit 0 with hlimit | hlimit
  · rw [Int.toNat_of_nonpos hlimit, List.take_zero]
    exact iff_of_true (fun t ht => absurd ht List.not_mem_nil) (.inl hlimit)
  · obtain ⟨n, hn⟩ : ∃ n, limit.toNat = n + 1 := ⟨limit.toNat - 1, by omega⟩
    rw [hn, List.take_succ_cons, List.forall_mem_cons]
    constructor
    · intro h
      exact .inr h.1
    · intro h
      exact ⟨h.resolve_left (not_le.mpr hlimit),
        fun t ht => .inl (hrest t (List.mem_of_mem_take ht))⟩

/-- **No stored candle is hidden** exactly if the range starts at a boundary of the interval, no
candle is stored for the bucket it starts in, or nothing is asked for. -/
theorem nothingHidden_iff (db : Database) (equalsInsensitive : String → String → Bool)
    (tokenA tokenB interval : String) (fromSec toSec limit : ℤ) (pool : Pool)
    (hpool : db.findPool equalsInsensitive tokenA.toLower tokenB.toLower = some pool)
    (haligned : Aligned db pool.id interval) (hle : fromSec ≤ toSec) :
    (∃ candles, getCandles db equalsInsensitive tokenA tokenB interval fromSec toSec limit
        = .ok (pool.id, candles) ∧
        NothingHidden db pool.id interval fromSec toSec limit candles) ↔
      (Js.IsDate (fromSec * 1000) ∧ Js.IsDate (toSec * 1000)) ∧
        (limit ≤ 0 ∨ getIntervalSeconds interval ∣ fromSec ∨
          db.candles.get ⟨pool.id, interval,
            floorTo (getIntervalSeconds interval) fromSec * 1000⟩ = none) := by
  have hfirst : (∀ t ∈ (buckets (getIntervalSeconds interval) fromSec toSec).take limit.toNat,
      fromSec ≤ t ∨ db.candles.get ⟨pool.id, interval, t * 1000⟩ = none) ↔ _ :=
    forall_mem_buckets_iff (getIntervalSeconds_pos interval) hle
  rw [← hfirst]
  constructor
  · rintro ⟨candles, hrun, hnothing⟩
    have hdates : Js.IsDate (fromSec * 1000) ∧ Js.IsDate (toSec * 1000) := by
      rw [getCandles, hpool] at hrun
      obtain ⟨p, -, hrun⟩ := bind_eq_ok.mp hrun
      obtain ⟨u, hrequire, -⟩ := bind_eq_ok.mp hrun
      exact require_eq_ok.mp hrequire
    rw [getCandles_eq hpool haligned hle hdates.1 hdates.2] at hrun
    obtain rfl := (Prod.mk.inj (Except.ok.inj hrun)).2
    exact ⟨hdates, fun t ht => shown_eq_iff.mp (List.map_inj_left.mp hnothing t ht)⟩
  · rintro ⟨⟨hfrom, hto⟩, hshown⟩
    refine ⟨_, getCandles_eq hpool haligned hle hfrom hto, ?_⟩
    exact List.map_congr_left fun t ht => shown_eq_iff.mpr (hshown t ht)

end Shown

/-- A pool with a candle of the first hour. -/
def oneCandle : Database where
  pools := [⟨"pool", "usdc", "xlm"⟩]
  candles := ⟨[(⟨"pool", "1h", 0⟩, ⟨1, 2, 1, 2, 10⟩)], by decide⟩

theorem aligned_oneCandle : Aligned oneCandle "pool" "1h" := by
  intro e he _ _
  obtain rfl := List.mem_singleton.mp he
  exact dvd_zero _

theorem findPool_oneCandle : oneCandle.findPool (· == ·) "USDC".toLower "XLM".toLower
    = some ⟨"pool", "usdc", "xlm"⟩ := by
  decide +kernel

theorem nothingHidden_oneCandle :
    ∃ candles, getCandles oneCandle (· == ·) "USDC" "XLM" "1h" 0 7200 10 = .ok ("pool", candles) ∧
      NothingHidden oneCandle "pool" "1h" 0 7200 10 candles :=
  (nothingHidden_iff oneCandle (· == ·) "USDC" "XLM" "1h" 0 7200 10 _ findPool_oneCandle
    aligned_oneCandle (by decide)).mpr ⟨by decide, .inr (.inl (by decide))⟩

/-- **A request from within the first hour does not show its candle.** -/
theorem first_candle_hidden :
    getCandles oneCandle (· == ·) "USDC" "XLM" "1h" 1800 7200 10
        = .ok ("pool", [nullCandle 0, nullCandle 3600, nullCandle 7200]) ∧
      ¬ NothingHidden oneCandle "pool" "1h" 1800 7200 10
        [nullCandle 0, nullCandle 3600, nullCandle 7200] := by
  refine ⟨?_, fun h => ?_⟩
  · rw [getCandles, findPool_oneCandle]
    rfl
  · exact nomatch congrArg (fun candles => candles.map PriceCandle.opening) h

end Swyft.Price
