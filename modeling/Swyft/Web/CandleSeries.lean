import Swyft.JsValue
import Swyft.Lib.Filling
import Swyft.Lib.OrderedMap
import Swyft.Lib.Trace
import Mathlib.Data.List.Sort

/-!
# The candles on the chart

`usePriceCandles` of `apps/web/hooks/usePriceCandles.ts`, with gap filling enabled and for one
interval: a response is sanitised and filled, and live prices are merged into the series one by one.
Only the first of the two checks the times.

## What is deliberately absent

Which tokens and pool the candles are of, `loading`, and the connection for live prices: a price
that arrives is one of the hook's pool. A response that is not ok, one that cannot be read and an
effect that runs again are one event, after which there are no candles. Of `gap` it is known whether
it counts as true.

## Main results

* `obeys_of_proper` — the gap policy is obeyed as long as no live price that is taken has a gap flag
  or a time out of range
* `Chart.Sound.exec_isOk` — each event of such a run comes to an end
-/

namespace Swyft.Web

open Js

/-! ### Candles -/

inductive Interval where
  | minute | fiveMinutes | hour | day
  deriving DecidableEq

/-- `INTERVAL_STEP`. -/
def Interval.step : Interval → ℕ
  | minute => 60
  | fiveMinutes => 300
  | hour => 3600
  | day => 86400

structure Candle where
  time : Value
  «open» : Value
  high : Value
  low : Value
  close : Value
  volume : Value
  gap : Bool
  deriving DecidableEq

/-- An element of a response. One that is no object has no fields: each is `undefined`. -/
structure ApiCandle where
  timestamp : Value
  «open» : Value
  high : Value
  low : Value
  close : Value
  volume : Value
  deriving DecidableEq

def isApiCandle (c : ApiCandle) : Bool := c.timestamp matches .number _

def mapApiCandleToCandle (c : ApiCandle) : Candle where
  time := c.timestamp
  «open» := .number c.open.toNumber
  high := .number c.high.toNumber
  low := .number c.low.toNumber
  close := .number c.close.toNumber
  volume := .number c.volume.toNumber
  gap := false

def isValidCandleTime (time : Value) (nowSecs stepSecs : ℕ) : Bool :=
  match time with
  | .number (.finite t) => 0 < t ∧ t ≤ nowSecs + stepSecs
  | _ => false

/-- The time of a candle that has passed `isValidCandleTime`. -/
def Candle.seconds (c : Candle) : ℚ :=
  match c.time with
  | .number (.finite t) => t
  | _ => 0

/-- The order by time. -/
def Candle.Earlier (a b : Candle) : Prop := a.seconds ≤ b.seconds

instance : DecidableRel Candle.Earlier := fun a b =>
  inferInstanceAs (Decidable (a.seconds ≤ b.seconds))

instance : Std.Total Candle.Earlier := ⟨fun a b => le_total a.seconds b.seconds⟩

instance : IsTrans Candle Candle.Earlier := ⟨fun _ _ _ hab hbc => le_trans hab hbc⟩

/-- The candles by time, the last of each. -/
def collect (nowSecs step : ℕ) (candles : List Candle) : OrderedMap Value Candle :=
  candles.foldl
    (fun seen c => if isValidCandleTime c.time nowSecs step then seen.set c.time c else seen) .empty

def sanitize (nowSecs step : ℕ) (candles : List Candle) : List Candle :=
  ((collect nowSecs step candles).entries.map Prod.snd).insertionSort Candle.Earlier

/-- What is put in after a candle. -/
def gapCandle (current : Candle) (t : Value) : Candle where
  time := t
  «open» := current.close
  high := current.close
  low := current.close
  close := current.close
  volume := .finite 0
  gap := true

/-- `t + step`. -/
def later (step : ℕ) (t : Value) : Value := t.plus (.finite step)

/-- Nothing, where the inner loop has not ended after `fuel` rounds. -/
def fillGaps (fuel step : ℕ) (candles : List Candle) : Option (List Candle) :=
  Filling.fill Value.less (later step) Candle.time gapCandle fuel candles

def mergeLiveCandle (fuel step : ℕ) (prev : List Candle) (incoming : Candle) :
    Option (List Candle) :=
  match prev.getLast? with
  | none => some [incoming]
  | some last =>
    if incoming.time.less last.time then some prev
    else if incoming.time.strictEq last.time then some (prev.dropLast ++ [incoming])
    else do
      let withGap ← fillGaps fuel step (prev ++ [incoming])
      let realCandles := withGap.filter (!·.gap)
      if realCandles.length ≤ 168 then return withGap
      fillGaps fuel step (realCandles.drop (realCandles.length - 168))

/-! ### Runs -/

/-- The last second of the language's clock. -/
def lastSecond : ℕ := 8640000000000

structure Chart where
  nowSecs : ℕ
  candles : List Candle
  deriving DecidableEq

inductive ChartEvent where
  | fetched (rawCandles : List ApiCandle)
  | cleared
  | price (incoming : Candle)
  | clock (nowSecs : ℕ)
  deriving DecidableEq

/-- A live price is not put in the place of the last candle, and is not stale. -/
def appends (prev : List Candle) (incoming : Candle) : Bool :=
  prev.getLast?.all fun last =>
    !incoming.time.less last.time && !incoming.time.strictEq last.time

/-- What an event does, and whether it is a live append. Nothing comes after a loop that does not
end. -/
def Chart.exec (fuel step : ℕ) (s : Chart) : ChartEvent → Except Unit (Chart × Bool)
  | .fetched rawCandles =>
    let mapped := (rawCandles.filter isApiCandle).map mapApiCandleToCandle
    match fillGaps fuel step (sanitize s.nowSecs step mapped) with
    | some candles => .ok ({ s with candles }, false)
    | none => .error ()
  | .cleared => .ok ({ s with candles := [] }, false)
  | .price incoming =>
    match mergeLiveCandle fuel step s.candles incoming with
    | some candles => .ok ({ s with candles }, appends s.candles incoming)
    | none => .error ()
  | .clock nowSecs =>
    if s.nowSecs ≤ nowSecs ∧ nowSecs ≤ lastSecond then .ok ({ s with nowSecs }, false)
    else .error ()

/-! ### The gap policy -/

/-- All four prices are the close of the candle before, and there is no volume. -/
def Candle.FlatAt (c : Candle) (close : Value) : Prop :=
  c.open = close ∧ c.high = close ∧ c.low = close ∧ c.close = close ∧ c.volume = .finite 0

/-- The time is a multiple of the interval. -/
def Candle.Aligned (step : ℕ) (c : Candle) : Prop := ∃ n : ℤ, c.time = .finite (n * step)

structure ObeysPolicy (nowSecs step : ℕ) (candles : List Candle) : Prop where
  times : ∀ c ∈ candles, ∃ t : ℚ, c.time = .finite t ∧ t ≤ nowSecs + step
  ascending : candles.Pairwise fun a b => a.time.less b.time
  spaced : (∀ c ∈ candles, c.gap = false → c.Aligned step) →
    candles.IsChain fun a b => ∃ t : ℚ, a.time = .finite t ∧ b.time = .finite (t + step)
  flat : candles.IsChain fun a b => b.gap = true → b.FlatAt a.close
  first : ∀ c ∈ candles.head?, c.gap = false

/-- A number, at most a bound and not so far below zero that sums with it are rounded. -/
def InRange (bound : ℕ) : Value → Prop
  | .number (.finite t) => -2 ^ 53 < t ∧ t ≤ bound
  | _ => False

/-- A live price that is not stale has a time in range, at most one step after the current time,
and no gap flag. -/
def Chart.Proper (step : ℕ) (s : Chart) : ChartEvent → Prop
  | .price incoming =>
    (∀ last ∈ s.candles.getLast?, incoming.time.less last.time = false) →
      InRange (s.nowSecs + step) incoming.time ∧ incoming.gap = false
  | _ => True

instance (bound : ℕ) (v : Value) : Decidable (InRange bound v) := by
  unfold InRange
  split <;> infer_instance

instance (step : ℕ) (s : Chart) (e : ChartEvent) : Decidable (s.Proper step e) := by
  unfold Chart.Proper
  split <;> infer_instance

variable {i : Interval} {fuel bound : ℕ} {s s' : Chart} {c a b incoming last : Candle}
  {candles filled prev : List Candle} {v w : Value} {t : ℚ}

/-! #### Times -/

theorem Interval.two_le_step (i : Interval) : 2 ≤ i.step := by cases i <;> decide

theorem Interval.step_le (i : Interval) : i.step ≤ 86400 := by cases i <;> decide

theorem exists_of_inRange (h : InRange bound v) :
    ∃ t : ℚ, v = .finite t ∧ -2 ^ 53 < t ∧ t ≤ bound := by
  match v, h with
  | .number (.finite t), h => exact ⟨t, rfl, h⟩

theorem InRange.mono {bound' : ℕ} (hle : bound ≤ bound') (h : InRange bound v) :
    InRange bound' v := by
  obtain ⟨t, rfl, hlow, hhigh⟩ := exists_of_inRange h
  exact ⟨hlow, hhigh.trans (by exact_mod_cast hle)⟩

theorem time_eq (h : InRange bound c.time) : c.time = .finite c.seconds := by
  obtain ⟨t, ht, -⟩ := exists_of_inRange h
  rw [Candle.seconds, ht]

theorem less_iff (ha : InRange bound a.time) (hb : InRange bound b.time) :
    a.time.less b.time = true ↔ a.seconds < b.seconds := by
  rw [time_eq ha, time_eq hb, Value.less_finite, decide_eq_true_iff]

/-- The largest bound there is for a time. -/
theorem bound_le {nowSecs : ℕ} (h : nowSecs ≤ lastSecond) (i : Interval) :
    nowSecs + i.step ≤ lastSecond + 86400 :=
  Nat.add_le_add h i.step_le

/-- **A step later.** The sum of a time in range and a step is rounded by one at most, and not at
all if the time is a whole number. -/
theorem later_finite (hbound : bound ≤ lastSecond + 86400) (h : InRange bound (.finite t)) :
    ∃ t', later i.step (.finite t) = .finite t' ∧ t + 1 ≤ t' ∧
      ∀ n : ℤ, t = n → t' = t + i.step := by
  have htwo : (2 : ℚ) ≤ i.step := by exact_mod_cast i.two_le_step
  have hstep : (i.step : ℚ) ≤ 86400 := by exact_mod_cast i.step_le
  have hhigh : t ≤ 8640000000000 + 86400 := h.2.trans (by exact_mod_cast hbound)
  have hlow : -2 ^ 53 < t := h.1
  have hsmall : |t + i.step| < 2 ^ 53 := by
    rw [abs_lt]
    constructor <;> linarith
  have hround := abs_le.mp (Doubles.abs_round_sub_le hsmall)
  have hfinite : |Doubles.round (t + i.step)| < 2 ^ 1024 := by
    have hle : |Doubles.round (t + i.step)| < 2 ^ 54 := by
      rw [abs_lt] at hsmall ⊢
      constructor <;> linarith
    exact hle.trans (pow_lt_pow_right₀ one_lt_two (by norm_num))
  refine ⟨Doubles.round (t + i.step), ?_, by linarith, ?_⟩
  · rw [later, Value.plus_finite, Number.ofRat, if_pos hfinite]
  · rintro n rfl
    have hsum : (n : ℚ) + i.step = ((n + i.step : ℤ) : ℚ) := by push_cast; rfl
    rw [hsum] at hsmall ⊢
    exact Doubles.round_intCast (by exact_mod_cast hsmall)

/-! #### Filled series -/

/-- What a candle of a filled series is to the one before it: later, by a step at most, and if it
was put in, it is what is put in there. -/
structure Follows (step : ℕ) (a b : Candle) : Prop where
  less : a.time.less b.time = true
  near : (later step a.time).less b.time = false
  gap : b.gap = true → b = gapCandle a (later step a.time)

/-- What every state of a run keeps. -/
structure Filled (bound step : ℕ) (candles : List Candle) : Prop where
  inRange : ∀ c ∈ candles, InRange bound c.time
  chain : candles.IsChain (Follows step)
  first : ∀ c ∈ candles.head?, c.gap = false

/-- Candles that can be filled. -/
structure Fillable (bound step : ℕ) (a b : Candle) : Prop where
  left : InRange bound a.time
  right : InRange bound b.time
  less : a.time.less b.time = true
  gap : b.gap = true → Follows step a b

/-- A candle that is put in follows, and can be filled up to the next one. -/
theorem links (hbound : bound ≤ lastSecond + 86400) :
    Filling.Links Value.less (later i.step) Candle.time gapCandle (Fillable bound i.step)
      fun a b => Follows i.step a b ∧ InRange bound b.time where
  time_filler _ _ := rfl
  filler_filler _ _ := rfl
  put a b hab hbefore := by
    obtain ⟨t, ht, hlow, -⟩ := exists_of_inRange hab.left
    obtain ⟨u, hu, -, hhigh⟩ := exists_of_inRange hab.right
    obtain ⟨t', ht', hle, -⟩ := later_finite (i := i) hbound (ht ▸ hab.left)
    have hlater : later i.step a.time = .finite t' := ht ▸ ht'
    have hlt : t' < u := by
      rwa [hlater, hu, Value.less_finite, decide_eq_true_iff] at hbefore
    have hin : InRange bound (later i.step a.time) := by
      rw [hlater]
      exact ⟨by linarith, by linarith⟩
    refine ⟨⟨⟨?_, ?_, fun _ => rfl⟩, hin⟩, hin, hab.right, hbefore, fun hgap => ?_⟩
    · show a.time.less (later i.step a.time) = true
      rw [ht, ht', Value.less_finite, decide_eq_true_iff]
      linarith
    · show (later i.step a.time).less (later i.step a.time) = false
      rw [hlater, Value.less_finite, decide_eq_false_iff_not]
      exact lt_irrefl t'
    · exact absurd hbefore (by simp [(hab.gap hgap).near])
  direct a b hab hnot := ⟨⟨hab.less, hnot, fun hgap => (hab.gap hgap).gap hgap⟩, hab.right⟩

/-- **Filling**: what is put in follows, and so does what comes after it. -/
theorem filled_of_fillGaps (hbound : bound ≤ lastSecond + 86400)
    (hrange : ∀ c ∈ candles, InRange bound c.time)
    (hchain : candles.IsChain (Fillable bound i.step))
    (hfirst : ∀ c ∈ candles.head?, c.gap = false)
    (h : fillGaps fuel i.step candles = some filled) : Filled bound i.step filled := by
  have hneighbours := Filling.isChain_fill (links hbound) hchain h
  have hhead : filled.head? = candles.head? := Filling.head?_fill h
  refine ⟨?_, hneighbours.imp fun _ _ h => h.1, hhead ▸ hfirst⟩
  refine hneighbours.induction (fun c => InRange bound c.time) _ (fun _ _ h _ => h.2) fun hne => ?_
  exact hrange _ (List.mem_of_mem_head? (hhead ▸ List.head?_eq_some_head hne))

/-- Real candles in strictly ascending order can be filled. -/
theorem isChain_fillable (hrange : ∀ c ∈ candles, InRange bound c.time)
    (hreal : ∀ c ∈ candles, c.gap = false)
    (hascending : candles.Pairwise fun a b => a.seconds < b.seconds) :
    candles.IsChain (Fillable bound i.step) := by
  refine hascending.isChain.imp_of_mem_imp fun a b ha hb hab => ?_
  exact ⟨hrange a ha, hrange b hb, (less_iff (hrange a ha) (hrange b hb)).mpr hab,
    fun hgap => absurd hgap (by simp [hreal b hb])⟩

/-- A filled series rises. -/
theorem Filled.ascending (h : Filled bound i.step candles) :
    candles.Pairwise fun a b => a.seconds < b.seconds := by
  have hchain : (candles.map Candle.seconds).IsChain (· < ·) := by
    refine (List.isChain_map _).mpr (h.chain.imp_of_mem_imp fun a b ha hb hab => ?_)
    exact (less_iff (h.inRange a ha) (h.inRange b hb)).mp hab.less
  exact List.pairwise_map.mp hchain.pairwise

/-! #### The response -/

/-- What is collected are candles with valid times, under their times. -/
theorem mem_collect {nowSecs step : ℕ} {e : Value × Candle}
    (he : e ∈ (collect nowSecs step candles).entries) :
    e.1 = e.2.time ∧ isValidCandleTime e.2.time nowSecs step = true ∧ e.2 ∈ candles := by
  have hfold (m : OrderedMap Value Candle) (cs : List Candle) (hsub : cs ⊆ candles)
      (hm : ∀ e ∈ m.entries, e.1 = e.2.time ∧ isValidCandleTime e.2.time nowSecs step = true ∧
        e.2 ∈ candles) :
      ∀ e ∈ (cs.foldl (fun seen c => if isValidCandleTime c.time nowSecs step
        then seen.set c.time c else seen) m).entries, e.1 = e.2.time ∧
          isValidCandleTime e.2.time nowSecs step = true ∧ e.2 ∈ candles := by
    induction cs generalizing m with
    | nil => exact hm
    | cons c cs ih =>
      rw [List.foldl_cons]
      split_ifs with hvalid
      · refine ih _ (List.subset_of_cons_subset hsub) ?_
        rintro ⟨k, v⟩ he
        rcases OrderedMap.mem_set.mp he with ⟨rfl, rfl⟩ | ⟨-, hold⟩
        · exact ⟨rfl, hvalid, hsub List.mem_cons_self⟩
        · exact hm _ hold
      · exact ih m (List.subset_of_cons_subset hsub) hm
  exact hfold .empty candles (List.Subset.refl _) (fun _ h => absurd h List.not_mem_nil) e he

theorem inRange_of_isValidCandleTime {nowSecs step : ℕ}
    (h : isValidCandleTime v nowSecs step = true) : InRange (nowSecs + step) v := by
  match v, h with
  | .number (.finite t), h =>
    obtain ⟨hpos, hle⟩ := of_decide_eq_true h
    exact ⟨by linarith, by exact_mod_cast hle⟩

theorem mem_sanitize {nowSecs step : ℕ} (h : c ∈ sanitize nowSecs step candles) :
    InRange (nowSecs + step) c.time ∧ c ∈ candles := by
  rw [sanitize, List.mem_insertionSort, List.mem_map] at h
  obtain ⟨e, he, rfl⟩ := h
  obtain ⟨-, hvalid, hmem⟩ := mem_collect he
  exact ⟨inRange_of_isValidCandleTime hvalid, hmem⟩

/-- **What is sanitised rises**: it is sorted, and no time is there twice. -/
theorem sanitize_ascending (nowSecs step : ℕ) (candles : List Candle) :
    (sanitize nowSecs step candles).Pairwise fun a b => a.seconds < b.seconds := by
  let m := collect nowSecs step candles
  have htimes : (m.entries.map Prod.snd).map Candle.time = m.entries.map Prod.fst := by
    rw [List.map_map]
    exact List.map_congr_left fun e he => (mem_collect he).1.symm
  have hnodup : ((sanitize nowSecs step candles).map Candle.time).Nodup := by
    rw [sanitize, ((List.perm_insertionSort Candle.Earlier _).map _).nodup_iff, htimes]
    exact m.nodup
  have hsorted : (sanitize nowSecs step candles).Pairwise Candle.Earlier :=
    List.pairwise_insertionSort Candle.Earlier _
  refine (hsorted.and (List.pairwise_map.mp hnodup)).imp_of_mem fun {a b} ha hb hab => ?_
  refine lt_of_le_of_ne hab.1 fun heq => hab.2 ?_
  rw [time_eq (mem_sanitize ha).1, time_eq (mem_sanitize hb).1, heq]

/-- What is left of a response before it is filled. -/
abbrev sanitized (nowSecs step : ℕ) (rawCandles : List ApiCandle) : List Candle :=
  sanitize nowSecs step ((rawCandles.filter isApiCandle).map mapApiCandleToCandle)

theorem mem_sanitized {nowSecs step : ℕ} {rawCandles : List ApiCandle}
    (h : c ∈ sanitized nowSecs step rawCandles) :
    InRange (nowSecs + step) c.time ∧ c.gap = false := by
  obtain ⟨hrange, hmem⟩ := mem_sanitize h
  obtain ⟨r, -, rfl⟩ := List.mem_map.mp hmem
  exact ⟨hrange, rfl⟩

theorem isChain_fillable_sanitized (nowSecs : ℕ) (rawCandles : List ApiCandle) :
    (sanitized nowSecs i.step rawCandles).IsChain (Fillable (nowSecs + i.step) i.step) :=
  isChain_fillable (fun _ hc => (mem_sanitized hc).1) (fun _ hc => (mem_sanitized hc).2)
    (sanitize_ascending _ _ _)

theorem filled_of_fetched {rawCandles : List ApiCandle} {nowSecs : ℕ} (hnow : nowSecs ≤ lastSecond)
    (h : fillGaps fuel i.step (sanitized nowSecs i.step rawCandles) = some filled) :
    Filled (nowSecs + i.step) i.step filled :=
  filled_of_fillGaps (bound_le hnow i) (fun _ hc => (mem_sanitized hc).1)
    (isChain_fillable_sanitized nowSecs rawCandles)
    (fun _ hc => (mem_sanitized (List.mem_of_mem_head? hc)).2) h

/-! #### Live prices -/

theorem realCandles_fillGaps (h : fillGaps fuel i.step candles = some filled) :
    filled.filter (!·.gap) = candles.filter (!·.gap) :=
  Filling.filter_fill (fun _ _ => rfl) h

/-- A candle of the same time can be put in the place of the last one. -/
theorem Filled.replace (h : Filled bound i.step (prev ++ [last])) (hreal : incoming.gap = false)
    (htime : incoming.time = last.time) : Filled bound i.step (prev ++ [incoming]) := by
  obtain ⟨hprev, -, hlast⟩ := List.isChain_append.mp h.chain
  refine ⟨fun c hc => ?_, List.isChain_append.mpr ⟨hprev, .singleton incoming, ?_⟩, ?_⟩
  · rcases List.mem_append.mp hc with hc | hc
    · exact h.inRange c (List.mem_append_left _ hc)
    · rw [List.mem_singleton.mp hc, htime]
      exact h.inRange last (by simp)
  · rintro a ha c ⟨⟩
    have hfollows := hlast a ha last rfl
    refine ⟨?_, ?_, fun hgap => absurd hgap (by simp [hreal])⟩
    · rw [htime]
      exact hfollows.less
    · rw [htime]
      exact hfollows.near
  · cases prev with
    | nil => rintro c ⟨⟩; exact hreal
    | cons a l => exact h.first

theorem Filled.singleton (hincoming : InRange bound incoming.time) (hreal : incoming.gap = false) :
    Filled bound i.step [incoming] := by
  refine ⟨fun c hc => ?_, .singleton incoming, ?_⟩
  · rw [List.mem_singleton.mp hc]
    exact hincoming
  · rintro c ⟨⟩
    exact hreal

/-- What is not stale and has another time than a candle is after it. -/
theorem less_of_not_stale (hlast : InRange bound last.time)
    (hincoming : InRange bound incoming.time)
    (hstale : incoming.time.less last.time = false)
    (hsame : incoming.time.strictEq last.time = false) :
    last.time.less incoming.time = true := by
  rw [time_eq hlast, time_eq hincoming] at *
  rw [Value.less_finite, decide_eq_false_iff_not] at hstale
  rw [Value.strictEq_finite, decide_eq_false_iff_not] at hsame
  rw [Value.less_finite, decide_eq_true_iff]
  exact lt_of_le_of_ne (not_lt.mp hstale) (Ne.symm hsame)

/-- A candle in range, not stale and of another time, can be put after a filled series. -/
theorem isChain_fillable_append (hprev : Filled bound i.step (prev ++ [last]))
    (hincoming : InRange bound incoming.time) (hreal : incoming.gap = false)
    (hstale : incoming.time.less last.time = false)
    (hsame : incoming.time.strictEq last.time = false) :
    (prev ++ [last] ++ [incoming]).IsChain (Fillable bound i.step) := by
  have hlast : InRange bound last.time := hprev.inRange last (by simp)
  refine List.isChain_append.mpr ⟨?_, .singleton incoming, ?_⟩
  · refine hprev.chain.imp_of_mem_imp fun a b ha hb hab => ?_
    exact ⟨hprev.inRange a ha, hprev.inRange b hb, hab.less, fun _ => hab⟩
  · rw [List.getLast?_concat]
    rintro _ ⟨⟩ _ ⟨⟩
    exact ⟨hlast, hincoming, less_of_not_stale hlast hincoming hstale hsame,
      fun hgap => absurd hgap (by simp [hreal])⟩

theorem Filled.append (hbound : bound ≤ lastSecond + 86400)
    (hprev : Filled bound i.step (prev ++ [last]))
    (hincoming : InRange bound incoming.time) (hreal : incoming.gap = false)
    (hstale : incoming.time.less last.time = false)
    (hsame : incoming.time.strictEq last.time = false)
    (h : fillGaps fuel i.step (prev ++ [last] ++ [incoming]) = some filled) :
    Filled bound i.step filled := by
  refine filled_of_fillGaps hbound (fun c hc => ?_)
    (isChain_fillable_append hprev hincoming hreal hstale hsame) ?_ h
  · rcases List.mem_append.mp hc with hc | hc
    · exact hprev.inRange c hc
    · exact List.mem_singleton.mp hc ▸ hincoming
  · have hhead : (prev ++ [last] ++ [incoming]).head? = (prev ++ [last]).head? := by
      cases prev <;> rfl
    exact hhead ▸ hprev.first

/-- The real candles of a filled series can be filled again. -/
theorem Filled.real (h : Filled bound i.step candles) (k : ℕ) :
    (∀ c ∈ (candles.filter (!·.gap)).drop k, InRange bound c.time ∧ c.gap = false) ∧
      ((candles.filter (!·.gap)).drop k).IsChain (Fillable bound i.step) := by
  have hsub : ((candles.filter (!·.gap)).drop k).Sublist candles :=
    (List.drop_sublist k _).trans List.filter_sublist
  have hrange : ∀ c ∈ (candles.filter (!·.gap)).drop k, InRange bound c.time :=
    fun c hc => h.inRange c (hsub.subset hc)
  have hreal : ∀ c ∈ (candles.filter (!·.gap)).drop k, c.gap = false := by
    intro c hc
    simpa using (List.mem_filter.mp (List.mem_of_mem_drop hc)).2
  exact ⟨fun c hc => ⟨hrange c hc, hreal c hc⟩,
    isChain_fillable hrange hreal (h.ascending.sublist hsub)⟩

theorem Filled.refill {k : ℕ} (hbound : bound ≤ lastSecond + 86400)
    (h : Filled bound i.step candles)
    (hfilled : fillGaps fuel i.step ((candles.filter (!·.gap)).drop k) = some filled) :
    Filled bound i.step filled := by
  obtain ⟨hmem, hchain⟩ := h.real k
  exact filled_of_fillGaps hbound (fun c hc => (hmem c hc).1) hchain
    (fun c hc => (hmem c (List.mem_of_mem_head? hc)).2) hfilled

/-- **What a live price does**: it begins the series, is stale, replaces the last candle or is put
after it, and then the series may be filled again from its last real candles. -/
theorem mergeLiveCandle_cases {step : ℕ}
    (h : mergeLiveCandle fuel step prev incoming = some candles) :
    prev = [] ∧ candles = [incoming] ∨
      ∃ before last, prev = before ++ [last] ∧
        (incoming.time.less last.time = true ∧ candles = prev ∨
          incoming.time.less last.time = false ∧ incoming.time.strictEq last.time = true ∧
            candles = before ++ [incoming] ∨
          incoming.time.less last.time = false ∧ incoming.time.strictEq last.time = false ∧
            ∃ withGap, fillGaps fuel step (prev ++ [incoming]) = some withGap ∧
              ((withGap.filter (!·.gap)).length ≤ 168 ∧ candles = withGap ∨
                168 < (withGap.filter (!·.gap)).length ∧
                  fillGaps fuel step ((withGap.filter (!·.gap)).drop
                    ((withGap.filter (!·.gap)).length - 168)) = some candles)) := by
  rcases List.eq_nil_or_concat' prev with rfl | ⟨before, last, rfl⟩
  · exact .inl ⟨rfl, (Option.some.inj h).symm⟩
  refine .inr ⟨before, last, rfl, ?_⟩
  simp only [mergeLiveCandle, List.getLast?_concat, List.dropLast_concat, Option.bind_eq_bind,
    Option.pure_def] at h
  split_ifs at h with hstale hsame
  · exact .inl ⟨hstale, (Option.some.inj h).symm⟩
  · exact .inr (.inl ⟨by simpa using hstale, hsame, (Option.some.inj h).symm⟩)
  · obtain ⟨withGap, hfill, h⟩ := Option.bind_eq_some_iff.mp h
    refine .inr (.inr ⟨by simpa using hstale, by simpa using hsame, withGap, hfill, ?_⟩)
    split_ifs at h with hlength
    · exact .inl ⟨hlength, (Option.some.inj h).symm⟩
    · exact .inr ⟨not_le.mp hlength, h⟩

/-- **Merging a live price** that is in range if it is not stale. -/
theorem filled_of_mergeLiveCandle (hbound : bound ≤ lastSecond + 86400)
    (hprev : Filled bound i.step prev)
    (hproper : (∀ last ∈ prev.getLast?, incoming.time.less last.time = false) →
      InRange bound incoming.time ∧ incoming.gap = false)
    (h : mergeLiveCandle fuel i.step prev incoming = some candles) :
    Filled bound i.step candles ∧
      (appends prev incoming = true → (candles.filter (!·.gap)).length ≤ 168) := by
  rcases mergeLiveCandle_cases h with ⟨rfl, rfl⟩ | ⟨before, last, rfl, hcases⟩
  · obtain ⟨hincoming, hreal⟩ := hproper fun last hlast => by cases hlast
    exact ⟨.singleton hincoming hreal, fun _ => by simp [hreal]⟩
  have hlast : (before ++ [last]).getLast? = some last := List.getLast?_concat
  have hinRange : InRange bound last.time := hprev.inRange last (by simp)
  simp only [appends, hlast, Option.mem_some_iff, forall_eq', Option.all_some] at hproper ⊢
  rcases hcases with ⟨hstale, rfl⟩ | ⟨hstale, hsame, rfl⟩ | ⟨hstale, hsame, withGap, hfill, hcases⟩
  · exact ⟨hprev, fun hends => absurd hends (by simp [hstale])⟩
  · obtain ⟨hincoming, hreal⟩ := hproper hstale
    refine ⟨hprev.replace hreal ?_, fun hends => absurd hends (by simp [hsame])⟩
    rw [time_eq hincoming, time_eq hinRange, Value.strictEq_finite, decide_eq_true_iff] at hsame
    rw [time_eq hincoming, time_eq hinRange, hsame]
  · obtain ⟨hincoming, hreal⟩ := hproper hstale
    have hwithGap := hprev.append hbound hincoming hreal hstale hsame hfill
    rcases hcases with ⟨hlength, rfl⟩ | ⟨hlength, hrefill⟩
    · exact ⟨hwithGap, fun _ => hlength⟩
    · refine ⟨hwithGap.refill hbound hrefill, fun _ => ?_⟩
      have hall : ((withGap.filter (!·.gap)).drop ((withGap.filter (!·.gap)).length - 168)).filter
          (!·.gap) = (withGap.filter (!·.gap)).drop ((withGap.filter (!·.gap)).length - 168) :=
        List.filter_eq_self.mpr fun c hc => (List.mem_filter.mp (List.mem_of_mem_drop hc)).2
      rw [realCandles_fillGaps hrefill, hall, List.length_drop]
      omega

/-! #### The policy -/

/-- A step after a multiple of the interval is the next one. -/
theorem later_multiple (hbound : bound ≤ lastSecond + 86400) {n : ℤ}
    (h : InRange bound (.finite (n * i.step))) :
    later i.step (.finite (n * i.step)) = .finite ((n + 1 : ℤ) * i.step) := by
  obtain ⟨t', ht', -, hwhole⟩ := later_finite (i := i) hbound h
  rw [ht', hwhole (n * i.step) (by push_cast; rfl)]
  congr 2
  push_cast
  ring

/-- Where the real candles are aligned, what is put in is too. -/
theorem Filled.aligned (hbound : bound ≤ lastSecond + 86400) (h : Filled bound i.step candles)
    (hreal : ∀ c ∈ candles, c.gap = false → c.Aligned i.step) :
    ∀ c ∈ candles, c.Aligned i.step := by
  have hchain : candles.IsChain fun a b => a ∈ candles ∧ b ∈ candles ∧ Follows i.step a b :=
    h.chain.imp_of_mem_imp fun a b ha hb hab => ⟨ha, hb, hab⟩
  refine hchain.induction (Candle.Aligned i.step) _ ?_ fun hne => ?_
  · rintro a b ⟨ha, hb, hab⟩ ⟨n, hn⟩
    cases hgap : b.gap with
    | false => exact hreal b hb hgap
    | true =>
      refine ⟨n + 1, ?_⟩
      rw [hab.gap hgap]
      show later i.step a.time = _
      rw [hn, later_multiple hbound (hn ▸ h.inRange a ha)]
  · exact hreal _ (List.head_mem hne) (h.first _ (List.head?_eq_some_head hne))

/-- Neighbours that are multiples of the interval are one step apart. -/
theorem Follows.spaced (hbound : bound ≤ lastSecond + 86400) (ha : InRange bound a.time)
    (hab : Follows i.step a b) (hna : a.Aligned i.step) (hnb : b.Aligned i.step) :
    ∃ t : ℚ, a.time = .finite t ∧ b.time = .finite (t + i.step) := by
  obtain ⟨n, hn⟩ := hna
  obtain ⟨m, hm⟩ := hnb
  have hpos : (0 : ℚ) < i.step := by exact_mod_cast Nat.lt_of_lt_of_le two_pos i.two_le_step
  have hless := hab.less
  have hnear := hab.near
  rw [hn, hm, Value.less_finite, decide_eq_true_iff, mul_lt_mul_iff_left₀ hpos] at hless
  rw [hn, hm, later_multiple hbound (hn ▸ ha), Value.less_finite, decide_eq_false_iff_not,
    mul_lt_mul_iff_left₀ hpos] at hnear
  obtain rfl : m = n + 1 := by
    have h1 : n < m := by exact_mod_cast hless
    have h2 : ¬ n + 1 < m := by exact_mod_cast hnear
    omega
  refine ⟨n * i.step, hn, ?_⟩
  rw [hm]
  congr 2
  push_cast
  ring

/-- **A filled series obeys the policy.** -/
theorem Filled.obeysPolicy {nowSecs : ℕ} (hnow : nowSecs ≤ lastSecond)
    (h : Filled (nowSecs + i.step) i.step candles) : ObeysPolicy nowSecs i.step candles where
  times c hc := by
    obtain ⟨t, ht, -, hle⟩ := exists_of_inRange (h.inRange c hc)
    exact ⟨t, ht, by exact_mod_cast hle⟩
  ascending := h.ascending.imp_of_mem fun ha hb hab =>
    (less_iff (h.inRange _ ha) (h.inRange _ hb)).mpr hab
  spaced hreal := by
    have haligned := h.aligned (bound_le hnow i) hreal
    exact h.chain.imp_of_mem_imp fun a b ha hb hab =>
      hab.spaced (bound_le hnow i) (h.inRange a ha) (haligned a ha) (haligned b hb)
  flat := h.chain.imp fun a b hab hgap => by
    rw [hab.gap hgap]
    exact ⟨rfl, rfl, rfl, rfl, rfl⟩
  first := h.first

/-! #### Runs -/

/-- What every state of a run keeps. -/
structure Chart.Sound (i : Interval) (s : Chart) : Prop where
  clock : s.nowSecs ≤ lastSecond
  filled : Filled (s.nowSecs + i.step) i.step s.candles

theorem filled_nil (bound step : ℕ) : Filled bound step [] :=
  ⟨fun _ h => absurd h List.not_mem_nil, .nil, fun c hc => by cases hc⟩

/-- **What a step keeps**: the series stays filled, and a live append leaves no more than 168 real
candles. -/
theorem Chart.Sound.exec {e : ChartEvent} {appended : Bool} (hs : s.Sound i)
    (hproper : s.Proper i.step e) (h : s.exec fuel i.step e = .ok (s', appended)) :
    s'.Sound i ∧ (appended = true → (s'.candles.filter (!·.gap)).length ≤ 168) := by
  cases e with
  | fetched rawCandles =>
    simp only [Chart.exec] at h
    split at h
    · rename_i candles hfill
      cases h
      exact ⟨⟨hs.clock, filled_of_fetched hs.clock hfill⟩, nofun⟩
    · cases h
  | cleared =>
    cases h
    exact ⟨⟨hs.clock, filled_nil _ _⟩, nofun⟩
  | price incoming =>
    simp only [Chart.exec] at h
    split at h
    · rename_i candles hmerge
      cases h
      have hkeeps := filled_of_mergeLiveCandle (bound_le hs.clock i) hs.filled hproper hmerge
      exact ⟨⟨hs.clock, hkeeps.1⟩, hkeeps.2⟩
    · cases h
  | clock nowSecs =>
    simp only [Chart.exec] at h
    split_ifs at h with hclock
    cases h
    refine ⟨⟨hclock.2, fun c hc => ?_, hs.filled.chain, hs.filled.first⟩, nofun⟩
    exact (hs.filled.inRange c hc).mono (Nat.add_le_add_right hclock.1 _)

/-- **The candles on the chart obey the gap policy** in every run in which no live price that is
taken has a gap flag or a time out of range, and a live append leaves no more than 168 real ones. -/
theorem obeys_of_proper (fuel : ℕ) (i : Interval) (nowSecs : ℕ) (hnow : nowSecs ≤ lastSecond)
    (es : List ChartEvent) (s : Chart) (ls : List (ChartEvent × Bool))
    (h : runAll (Chart.exec fuel i.step) ⟨nowSecs, []⟩ es = .ok (s, ls))
    (hproper : Along (Chart.exec fuel i.step) (Chart.Proper i.step) ⟨nowSecs, []⟩ es) :
    ObeysPolicy s.nowSecs i.step s.candles ∧
      ∀ e, ls.getLast? = some (e, true) → (s.candles.filter (!·.gap)).length ≤ 168 := by
  have htrace := trace_of_along h hproper
  have hkeeps : ∀ s l s', s.Sound i →
      Fires (Chart.exec fuel i.step) s l s' ∧ s.Proper i.step l.1 → s'.Sound i :=
    fun s l s' hs hstep => (hs.exec hstep.2 hstep.1).1
  have hstart : Chart.Sound i ⟨nowSecs, []⟩ := ⟨hnow, filled_nil _ _⟩
  have hs := htrace.invariant hkeeps hstart
  refine ⟨hs.filled.obeysPolicy hs.clock, fun e he => ?_⟩
  obtain ⟨init, rfl⟩ := List.getLast?_eq_some_iff.mp he
  obtain ⟨s₁, hinit, hlast⟩ := Trace.append_iff.mp htrace
  obtain ⟨s₂, hstep, hend⟩ := Trace.cons_iff.mp hlast
  cases hend
  exact ((hinit.invariant hkeeps hstart).exec hstep.2 hstep.1).2 rfl

/-- A response of one candle. -/
def oneCandle : List ApiCandle :=
  [⟨.finite 60, .string "1", .string "1", .string "1", .string "1", .string "5"⟩]

/-- A live price two minutes later, with a candle put in between. -/
theorem obeys_of_proper_append :
    ∃ s ls, runAll (Chart.exec 2 Interval.minute.step) ⟨200, []⟩
        [.fetched oneCandle,
          .price ⟨.finite 180, .string "1", .string "2", .string "1", .string "2", .null, false⟩]
        = .ok (s, ls) ∧
      s.candles.length = 3 ∧ ObeysPolicy s.nowSecs Interval.minute.step s.candles := by
  have hends : Checked.Yields (runAll (Chart.exec 2 Interval.minute.step) ⟨200, []⟩
      [.fetched oneCandle,
        .price ⟨.finite 180, .string "1", .string "2", .string "1", .string "2", .null, false⟩])
      fun r => r.1.candles.length = 3 := by
    decide +kernel
  obtain ⟨⟨s, ls⟩, h, hlength⟩ := Checked.yields_iff.mp hends
  exact ⟨s, ls, h, hlength,
    (obeys_of_proper 2 .minute 200 (by decide) _ s ls h (by decide +kernel)).1⟩

/-- A live price that has no time is put after the last candle. -/
theorem not_obeys_withoutTime :
    ∃ s ls, runAll (Chart.exec 1 Interval.minute.step) ⟨200, []⟩
        [.fetched oneCandle,
          .price ⟨.undefined, .undefined, .undefined, .undefined, .undefined, .undefined, false⟩]
        = .ok (s, ls) ∧
      ¬ ObeysPolicy s.nowSecs Interval.minute.step s.candles := by
  have hends : Checked.Yields (runAll (Chart.exec 1 Interval.minute.step) ⟨200, []⟩
      [.fetched oneCandle,
        .price ⟨.undefined, .undefined, .undefined, .undefined, .undefined, .undefined, false⟩])
      fun r => ∃ c ∈ r.1.candles, c.time = .undefined := by
    decide +kernel
  obtain ⟨⟨s, ls⟩, h, c, hc, htime⟩ := Checked.yields_iff.mp hends
  refine ⟨s, ls, h, fun hobeys => ?_⟩
  obtain ⟨t, ht, -⟩ := hobeys.times c hc
  exact absurd (htime.symm.trans ht) (by simp [Value.finite])

/-! #### Loops that end -/

/-- How many seconds there are from a time to the last one there is, or more. -/
def secondsLeft : Value → ℕ
  | .number (.finite t) => ⌈(lastSecond + 86400 : ℚ) - t⌉.toNat
  | _ => 0

/-- A round of the inner loop leaves fewer seconds. -/
theorem secondsLeft_later (hbound : bound ≤ lastSecond + 86400) (hlow : -2 ^ 53 < t)
    (hlt : t < bound) :
    ∃ t', later i.step (.finite t) = .finite t' ∧ -2 ^ 53 < t' ∧
      secondsLeft (.finite t') < secondsLeft (.finite t) := by
  have hlast : (bound : ℚ) ≤ lastSecond + 86400 := by exact_mod_cast hbound
  obtain ⟨t', ht', hle, -⟩ := later_finite (i := i) hbound ⟨hlow, hlt.le⟩
  refine ⟨t', ht', by linarith, ?_⟩
  have hceil : ⌈(lastSecond + 86400 : ℚ) - t'⌉ ≤ ⌈(lastSecond + 86400 : ℚ) - t⌉ - 1 := by
    have := Int.le_ceil ((lastSecond + 86400 : ℚ) - t)
    rw [Int.ceil_le]
    push_cast
    linarith
  have hpos : 0 < ⌈(lastSecond + 86400 : ℚ) - t⌉ := Int.ceil_pos.mpr (by linarith)
  simp only [secondsLeft]
  omega

theorem secondsLeft_lt (hlow : -2 ^ 53 < t) : secondsLeft (.finite t) < 2 ^ 54 := by
  have hceil : ⌈(lastSecond + 86400 : ℚ) - t⌉ ≤ 2 ^ 53 + 8640000086400 := by
    rw [Int.ceil_le]
    push_cast [lastSecond]
    linarith
  simp only [secondsLeft]
  omega

/-- **The inner loop ends**: the time is a second nearer after each round. -/
theorem isSome_fillGaps (hbound : bound ≤ lastSecond + 86400) (hfuel : 2 ^ 54 ≤ fuel)
    (hchain : candles.IsChain (Fillable bound i.step)) :
    (fillGaps fuel i.step candles).isSome := by
  refine Filling.isSome_fill (hchain.imp fun a b hab => ?_)
  obtain ⟨t, ht, hlow, -⟩ := exists_of_inRange hab.left
  obtain ⟨u, hu, -, hhigh⟩ := exists_of_inRange hab.right
  obtain ⟨t', ht', hle, -⟩ := later_finite (i := i) hbound (ht ▸ hab.left)
  have hlow' : -2 ^ 53 < t' := by linarith
  rw [ht, ht']
  refine Filling.isSome_missing (P := fun v => ∃ t : ℚ, v = .finite t ∧ -2 ^ 53 < t) ?_
    ⟨t', rfl, hlow'⟩ ((secondsLeft_lt hlow').trans_le hfuel)
  rintro _ ⟨t, rfl, hlow⟩ hbefore
  rw [hu, Value.less_finite, decide_eq_true_iff] at hbefore
  obtain ⟨t', ht', hlow', hless⟩ := secondsLeft_later hbound hlow (hbefore.trans_le hhigh)
  rw [ht']
  exact ⟨⟨t', rfl, hlow'⟩, hless⟩

theorem isSome_mergeLiveCandle (hbound : bound ≤ lastSecond + 86400) (hfuel : 2 ^ 54 ≤ fuel)
    (hprev : Filled bound i.step prev)
    (hproper : (∀ last ∈ prev.getLast?, incoming.time.less last.time = false) →
      InRange bound incoming.time ∧ incoming.gap = false) :
    (mergeLiveCandle fuel i.step prev incoming).isSome := by
  rcases List.eq_nil_or_concat' prev with rfl | ⟨before, last, rfl⟩
  · rfl
  simp only [List.getLast?_concat, Option.mem_some_iff, forall_eq'] at hproper
  simp only [mergeLiveCandle, List.getLast?_concat, Option.bind_eq_bind, Option.pure_def]
  split_ifs with hstale hsame
  · rfl
  · rfl
  have hstale : incoming.time.less last.time = false := by simpa using hstale
  have hsame : incoming.time.strictEq last.time = false := by simpa using hsame
  obtain ⟨hincoming, hreal⟩ := hproper hstale
  obtain ⟨withGap, hfill⟩ := Option.isSome_iff_exists.mp (isSome_fillGaps hbound hfuel
    (isChain_fillable_append hprev hincoming hreal hstale hsame))
  rw [hfill, Option.bind_some]
  split_ifs
  · rfl
  · exact isSome_fillGaps hbound hfuel
      ((hprev.append hbound hincoming hreal hstale hsame hfill).real _).2

/-- **Each event comes to an end**, where the time does not run backwards or out. -/
theorem Chart.Sound.exec_isOk {e : ChartEvent} (hfuel : 2 ^ 54 ≤ fuel) (hs : s.Sound i)
    (hproper : s.Proper i.step e)
    (hclock : ∀ nowSecs, e = .clock nowSecs → s.nowSecs ≤ nowSecs ∧ nowSecs ≤ lastSecond) :
    ∃ r, s.exec fuel i.step e = .ok r := by
  cases e with
  | fetched rawCandles =>
    obtain ⟨filled, hfill⟩ := Option.isSome_iff_exists.mp (isSome_fillGaps (bound_le hs.clock i)
      hfuel (isChain_fillable_sanitized s.nowSecs rawCandles))
    exact ⟨_, by rw [Chart.exec, hfill]⟩
  | cleared => exact ⟨_, rfl⟩
  | price incoming =>
    obtain ⟨candles, hmerge⟩ := Option.isSome_iff_exists.mp
      (isSome_mergeLiveCandle (bound_le hs.clock i) hfuel hs.filled hproper)
    exact ⟨_, by rw [Chart.exec, hmerge]⟩
  | clock nowSecs => exact ⟨_, if_pos (hclock nowSecs rfl)⟩

end Swyft.Web
