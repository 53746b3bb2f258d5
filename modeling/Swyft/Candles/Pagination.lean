import Swyft.Candles.Ticks

/-!
# Following the cursors

A client of `getTicks` that starts without a cursor and goes from page to page comes to a page
without a next one, and has then got the candles of its pool and interval, each once and the
earliest first.

## Main definitions

* `fetchTicks` — the page of a cursor

## Main results

* `pagination_exact` — what a client gets, and that its cursors lose nothing
-/

namespace Swyft.Candles

open Checked CandleInterval Keyset

variable {otherDate : List UInt8 → Option ℤ} {table : CandleTable} {poolId : String}
  {interval : Option CandleInterval} {limit : ℕ} {actor : CandleActor} {correlationId : String}

/-- The page of a cursor. -/
def fetchTicks (otherDate : List UInt8 → Option ℤ) (table : CandleTable) (poolId : String)
    (interval : Option CandleInterval) (limit : ℕ) (actor : CandleActor) (correlationId : String)
    (cursor : Option String) : Except TicksFailure TicksPage :=
  getTicks otherDate (some table) ⟨poolId, interval.map text, some (some limit), cursor⟩
    (some actor) correlationId

theorem resolveLimit_natCast (hpos : 1 ≤ limit) (hmax : limit ≤ 1000) :
    resolveLimit (some (some (limit : ℚ))) correlationId = .ok limit := by
  have hone : (1 : ℚ) ≤ limit := by exact_mod_cast hpos
  have hthousand : (limit : ℚ) ≤ ticksMaxLimit := by exact_mod_cast hmax
  rw [resolveLimit, getOr_eq_ok, Option.bind_some, if_pos ⟨Rat.den_natCast limit, hone, hthousand⟩]
  rfl

/-- Every cursor that a page names leads to the page after it. -/
theorem fetchTicks_isPage (hrole : ∃ r ∈ actor.roles, r ∈ ticksReadRoles) (hpos : 1 ≤ limit)
    (hmax : limit ≤ 1000) (cursor : Option ℤ) (hcursor : ∀ t ∈ cursor, Js.IsDate t) :
    ∃ page, fetchTicks otherDate table poolId interval limit actor correlationId
        (cursor.map encodeCursor) = .ok page ∧
      IsPage (fun e => e.1.periodStart) encodeCursor tickOf TicksPage.data TicksPage.nextCursor
        limit (table.series poolId (interval.getD oneMinute).text) cursor page := by
  have hactor : authorizeTicks (some actor) correlationId = .ok () :=
    require_pos ⟨actor, rfl, hrole⟩
  have hinterval : assertInterval ((interval.map text).getD "1m") correlationId
      = .ok (interval.getD oneMinute) := by
    cases interval with
    | none => exact assertInterval_text oneMinute correlationId
    | some interval => exact assertInterval_text interval correlationId
  have hdecode : decodeCursor otherDate (cursor.map encodeCursor) correlationId = .ok cursor := by
    cases cursor with
    | none => rfl
    | some t => exact decodeCursor_encodeCursor (hcursor t rfl)
  exact getTicks_isPage hactor hinterval (resolveLimit_natCast hpos hmax) hdecode

/-- **Tick pagination is exact**: a client that starts without a cursor comes to an end, with every
candle of the pool and the interval once and in the order of time; and what a cursor says of a date
is read from it. -/
theorem pagination_exact (otherDate : List UInt8 → Option ℤ) (table : CandleTable)
    (poolId : String) (interval : Option CandleInterval) (limit : ℕ) (actor : CandleActor)
    (correlationId : String) (hrole : ∃ r ∈ actor.roles, r ∈ ticksReadRoles) (hpos : 1 ≤ limit)
    (hmax : limit ≤ 1000) :
    (∃! pages, Follows (fetchTicks otherDate table poolId interval limit actor correlationId)
        TicksPage.nextCursor none pages) ∧
      (∀ pages, Follows (fetchTicks otherDate table poolId interval limit actor correlationId)
          TicksPage.nextCursor none pages →
        ∃ rows : List (CandleKey × Ohlcv), pages.flatMap TicksPage.data = rows.map tickOf ∧
          (rows.Pairwise fun e e' => e.1.periodStart < e'.1.periodStart) ∧
          ∀ e, e ∈ rows ↔ e ∈ table.candles ∧ e.1.poolId = poolId ∧
            e.1.interval = (interval.getD oneMinute).text) ∧
      ∀ t, Js.IsDate t →
        decodeCursor otherDate (some (encodeCursor t)) correlationId = .ok (some t) := by
  have hpage : ∀ cursor : Option ℤ, (∀ t ∈ cursor,
      t ∈ (table.series poolId (interval.getD oneMinute).text).map fun e => e.1.periodStart) →
      ∃ page, fetchTicks otherDate table poolId interval limit actor correlationId
          (cursor.map encodeCursor) = .ok page ∧
        IsPage (fun e => e.1.periodStart) encodeCursor tickOf TicksPage.data TicksPage.nextCursor
          limit (table.series poolId (interval.getD oneMinute).text) cursor page := by
    intro cursor hcursor
    refine fetchTicks_isPage hrole hpos hmax cursor fun t ht => ?_
    obtain ⟨e, he, rfl⟩ := List.mem_map.mp (hcursor t ht)
    exact table.isDate e (mem_series.mp he).1
  obtain ⟨pages, hpages, hdata⟩ := exists_follows hpos pairwise_series hpage
  refine ⟨⟨pages, hpages, fun pages' h' => h'.unique hpages⟩, fun pages' h' => ?_,
    fun t ht => decodeCursor_encodeCursor ht⟩
  obtain rfl := h'.unique hpages
  exact ⟨_, hdata, pairwise_series, fun e => mem_series⟩

/-- Two candles of a pool, the later one stored first. -/
def twoCandles : CandleTable where
  candles := ⟨[(⟨"A", "1m", 60000⟩, ⟨1, 2, 1, 2, 10⟩), (⟨"A", "1m", 0⟩, ⟨1, 1, 1, 1, 5⟩)],
    by decide⟩
  isDate e he := by
    rcases List.mem_cons.mp he with rfl | he
    · decide
    · obtain rfl := List.mem_singleton.mp he
      decide

theorem pagination_exact_twoCandles :
    (∃! pages, Follows (fetchTicks (fun _ => none) twoCandles "A" none 1 ⟨["admin"]⟩ "")
        TicksPage.nextCursor none pages) ∧
      decodeCursor (fun _ => none) (some (encodeCursor 60000)) "" = .ok (some 60000) := by
  have h := pagination_exact (fun _ => none) twoCandles "A" none 1 ⟨["admin"]⟩ "" (by decide)
    (by decide) (by decide)
  exact ⟨h.1, h.2.2 60000 (by decide)⟩

end Swyft.Candles
