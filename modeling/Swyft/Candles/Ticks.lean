import Swyft.Candles.Model
import Swyft.Lib.Base64
import Swyft.Lib.Keyset

/-!
# Ticks

The read path of `apps/api/src/candles/candles.service.ts`: the candles of a pool in pages, from a
cursor to a cursor.

A number of the language is a rational, or nothing where it is not finite. The database answers
with its table, or with nothing where the read fails. The language is free in what it makes of a
text that is not the one it writes for a date: `otherDate` stands for its choice.

## Main definitions

* `CandleTable` — the stored candles, each starting at a date
* `encodeCursor`, `decodeCursor`, `getTicks` — the source functions

## Main results

* `findTicks_eq` — what is found are the rows of the series after the cursor
* `decodeCursor_encodeCursor` — a cursor is read as the date it was written for
-/

namespace Swyft.Candles

open Checked

/-- `TICKS_DEFAULT_LIMIT`. -/
def ticksDefaultLimit : ℕ := 100

/-- `TICKS_MAX_LIMIT`. -/
def ticksMaxLimit : ℕ := 1000

inductive TickErrorCode where
  | invalidLimit
  | invalidCursor
  | unauthorized
  | dependencyUnavailable
  deriving DecidableEq

structure TickError where
  code : TickErrorCode
  message : String
  correlationId : String
  deriving DecidableEq

/-- What `getTicks` throws. -/
inductive TicksFailure where
  | candle (e : CandleError)
  | tick (e : TickError)
  deriving DecidableEq

structure TicksQuery where
  poolId : String
  interval : Option String
  limit : Option (Option ℚ)
  cursor : Option String

structure TickDto where
  poolId : String
  interval : String
  periodStart : String
  opening : ℚ
  high : ℚ
  low : ℚ
  close : ℚ
  volumeUsd : ℚ
  deriving DecidableEq

structure TicksPage where
  data : List TickDto
  nextCursor : Option String
  correlationId : String
  deriving DecidableEq

/-- `TICKS_READ_ROLES`. -/
def ticksReadRoles : List String := ["admin", "candles:read", "ticks:read"]

/-- The stored candles. -/
structure CandleTable where
  candles : OrderedMap CandleKey Ohlcv
  isDate : ∀ e ∈ candles, Js.IsDate e.1.periodStart

/-- The candles of a pool and an interval, the earliest first. -/
def CandleTable.series (table : CandleTable) (poolId interval : String) :
    List (CandleKey × Ohlcv) :=
  (table.candles.entries.filter fun e =>
    e.1.poolId = poolId ∧ e.1.interval = interval).insertionSort Earlier

/-! ### Cursors -/

/-- The bytes of a text. -/
def utf8 (cs : List Char) : List UInt8 := cs.flatMap String.utf8EncodeChar

/-- The characters of bytes, if they are all below 128. -/
def ofUtf8 (bytes : List UInt8) : List Char := bytes.map fun b => Char.ofNat b.toNat

/-- `encodeCursor`. -/
def encodeCursor (periodStart : ℤ) : String :=
  String.ofList (Base64.encode (utf8 (Js.isoChars periodStart)))

theorem ofUtf8_utf8 {cs : List Char} (h : ∀ c ∈ cs, c.toNat < 128) : ofUtf8 (utf8 cs) = cs := by
  induction cs with
  | nil => rfl
  | cons c cs ih =>
    have hc : c.toNat < 128 := h c List.mem_cons_self
    have hbyte : String.utf8EncodeChar c = [UInt8.ofNat c.toNat] :=
      if_pos (Nat.le_of_lt_succ hc)
    have hchar : Char.ofNat (UInt8.ofNat c.toNat).toNat = c := by
      rw [UInt8.toNat_ofNat_of_lt' (by omega : c.toNat < 256), Char.ofNat_toNat]
    rw [utf8, List.flatMap_cons, hbyte, List.singleton_append, ofUtf8, List.map_cons, hchar]
    exact congrArg (c :: ·) (ih fun c' hc' => h c' (List.mem_cons_of_mem c hc'))

/-- `new Date` of the text that bytes spell. Texts of dates have no byte above 127. -/
def newDate (otherDate : List UInt8 → Option ℤ) (bytes : List UInt8) : Option ℤ :=
  (Js.readISOChars (ofUtf8 bytes)).orElse fun _ => otherDate bytes

/-- `decodeCursor`. -/
def decodeCursor (otherDate : List UInt8 → Option ℤ) (cursor : Option String)
    (correlationId : String) : Except TickError (Option ℤ) :=
  match cursor with
  | none => pure none
  | some cursor =>
    if cursor = "" then pure none
    else do
      let date ← getOr {
        code := .invalidCursor
        message := "cursor is not a valid pagination token"
        correlationId } (newDate otherDate (Base64.decode cursor.toList))
      pure (some date)

/-- **A cursor is read as the date it was written for.** -/
theorem decodeCursor_encodeCursor {otherDate : List UInt8 → Option ℤ} {correlationId : String}
    {t : ℤ} (h : Js.IsDate t) :
    decodeCursor otherDate (some (encodeCursor t)) correlationId = .ok (some t) := by
  have hread : ofUtf8 (utf8 (Js.isoChars t)) = Js.isoChars t :=
    ofUtf8_utf8 fun c hc => Js.toNat_lt_of_mem_isoChars hc
  have hbytes : Base64.decode (encodeCursor t).toList = utf8 (Js.isoChars t) := by
    rw [encodeCursor, String.toList_ofList, Base64.decode_encode]
  have hdate : newDate otherDate (Base64.decode (encodeCursor t).toList) = some t := by
    rw [hbytes, newDate, hread, Js.readISOChars_isoChars h]
    rfl
  have hne : encodeCursor t ≠ "" := by
    -- no date has an empty text
    intro hempty
    rw [hempty] at hbytes
    have hnil : Js.isoChars t = [] := by
      rw [← hread, ← hbytes]
      rfl
    have hnone : Js.readISOChars [] = none := by decide
    have hsome := Js.readISOChars_isoChars h
    rw [hnil, hnone] at hsome
    cases hsome
  rw [decodeCursor, if_neg hne, hdate]
  rfl

/-! ### Requests -/

/-- `authorizeTicks`. -/
def authorizeTicks (actor : Option CandleActor) (correlationId : String) : Except TickError Unit :=
  require (∃ a ∈ actor, ∃ r ∈ a.roles, r ∈ ticksReadRoles) {
    code := .unauthorized
    message := "Caller is not authorized to read ticks"
    correlationId }

/-- `resolveLimit`. -/
def resolveLimit (limit : Option (Option ℚ)) (correlationId : String) : Except TickError ℕ :=
  match limit with
  | none => pure ticksDefaultLimit
  | some limit =>
    getOr {
      code := .invalidLimit
      message := "limit must be an integer between 1 and 1000"
      correlationId } (limit.bind fun n =>
        if n.den = 1 ∧ 1 ≤ n ∧ n ≤ ticksMaxLimit then some n.num.toNat else none)

/-- `priceCandle.findMany` of a page. -/
def CandleTable.findTicks (table : CandleTable) (poolId interval : String) (gt : Option ℤ)
    (take : ℕ) : List (CandleKey × Ohlcv) :=
  ((table.candles.entries.filter fun e => e.1.poolId = poolId ∧ e.1.interval = interval ∧
    ∀ t ∈ gt, t < e.1.periodStart).insertionSort Earlier).take take

section Series

variable {table : CandleTable} {poolId interval : String} {e : CandleKey × Ohlcv}

theorem mem_series : e ∈ table.series poolId interval ↔
    e ∈ table.candles ∧ e.1.poolId = poolId ∧ e.1.interval = interval := by
  rw [CandleTable.series, List.mem_insertionSort, List.mem_filter, decide_eq_true_iff]
  exact Iff.rfl

/-- No two candles of a pool and an interval start at one time. -/
theorem pairwise_series :
    (table.series poolId interval).Pairwise fun e e' => e.1.periodStart < e'.1.periodStart := by
  have hsorted : (table.series poolId interval).Pairwise Earlier :=
    List.pairwise_insertionSort Earlier _
  have hkeys : (table.series poolId interval).Pairwise fun e e' => e.1 ≠ e'.1 := by
    have hall : table.candles.entries.Pairwise fun e e' => e.1 ≠ e'.1 :=
      List.pairwise_map.mp table.candles.nodup
    exact (List.perm_insertionSort Earlier _).symm.pairwise (hall.filter _) Ne.symm
  refine (hsorted.and hkeys).imp_of_mem fun {e e'} he he' hpair => ?_
  obtain ⟨-, hpool, hinterval⟩ := mem_series.mp he
  obtain ⟨-, hpool', hinterval'⟩ := mem_series.mp he'
  refine lt_of_le_of_ne hpair.1 fun hstart => hpair.2 ?_
  calc e.1 = ⟨e.1.poolId, e.1.interval, e.1.periodStart⟩ := rfl
    _ = ⟨e'.1.poolId, e'.1.interval, e'.1.periodStart⟩ := by
      rw [hpool, hpool', hinterval, hinterval', hstart]
    _ = e'.1 := rfl

/-- **What is found are the first rows of the series after the cursor.** -/
theorem findTicks_eq {gt : Option ℤ} {take : ℕ} : table.findTicks poolId interval gt take
    = (Keyset.after (fun e => e.1.periodStart) (table.series poolId interval) gt).take take := by
  cases gt with
  | none => simp [CandleTable.findTicks, CandleTable.series, Keyset.after]
  | some t =>
    show _ = ((table.series poolId interval).filter fun e => t < e.1.periodStart).take take
    rw [CandleTable.findTicks, CandleTable.series, Sorting.filter_insertionSort,
      List.filter_filter]
    congr 2
    refine List.filter_congr fun e _ => ?_
    simp only [Option.mem_some_iff, forall_eq', Bool.decide_and]
    rw [← Bool.and_assoc, Bool.and_comm]

end Series

/-- The tick of a row. -/
def tickOf (r : CandleKey × Ohlcv) : TickDto where
  poolId := r.1.poolId
  interval := r.1.interval
  periodStart := isoText r.1.periodStart
  opening := r.2.opening
  high := r.2.high
  low := r.2.low
  close := r.2.close
  volumeUsd := r.2.volumeUsd

/-- `getTicks`. -/
def getTicks (otherDate : List UInt8 → Option ℤ) (table : Option CandleTable) (query : TicksQuery)
    (actor : Option CandleActor) (correlationId : String) : Except TicksFailure TicksPage := do
  (authorizeTicks actor correlationId).mapError .tick
  let interval ← (assertInterval (query.interval.getD "1m") correlationId).mapError .candle
  let limit ← (resolveLimit query.limit correlationId).mapError .tick
  let cursorStart ← (decodeCursor otherDate query.cursor correlationId).mapError .tick
  let table ← getOr (.tick {
    code := .dependencyUnavailable
    message := "Tick source is unavailable; refusing to serve a partial page"
    correlationId }) table
  let rows := table.findTicks query.poolId interval.text cursorStart (limit + 1)
  let hasMore := limit < rows.length
  let page := if hasMore then rows.take limit else rows
  pure {
    data := page.map tickOf
    nextCursor := if hasMore then page.getLast?.map fun r => encodeCursor r.1.periodStart else none
    correlationId }

/-- **A page of ticks is a page of the series**, for a request that passes the checks. -/
theorem getTicks_isPage {otherDate : List UInt8 → Option ℤ} {table : CandleTable}
    {query : TicksQuery} {actor : Option CandleActor} {correlationId : String}
    {interval : CandleInterval} {limit : ℕ} {gt : Option ℤ}
    (hactor : authorizeTicks actor correlationId = .ok ())
    (hinterval : assertInterval (query.interval.getD "1m") correlationId = .ok interval)
    (hlimit : resolveLimit query.limit correlationId = .ok limit)
    (hcursor : decodeCursor otherDate query.cursor correlationId = .ok gt) :
    ∃ page, getTicks otherDate (some table) query actor correlationId = .ok page ∧
      Keyset.IsPage (fun e => e.1.periodStart) encodeCursor tickOf TicksPage.data
        TicksPage.nextCursor limit (table.series query.poolId interval.text) gt page := by
  rw [getTicks, hactor, hinterval, hlimit, hcursor]
  refine ⟨_, rfl, ?_, ?_⟩
  · dsimp only
    rw [findTicks_eq, Keyset.lookahead_eq]
  · dsimp only
    rw [findTicks_eq, Keyset.lookahead_eq]
    simp only [Keyset.lt_length_lookahead]

end Swyft.Candles
