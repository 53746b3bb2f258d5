import Mathlib.Data.List.Induction
import Mathlib.Data.List.Sort
import Mathlib.Data.Prod.Lex
import Mathlib.Data.String.Basic
import Swyft.JsDate
import Swyft.Lib.Grouping
import Swyft.Lib.GrowingPages
import Swyft.Lib.OrderedMap
import Swyft.Stats

/-!
# The volume of every day

`getVolume` of `apps/api/src/admin/analytics.service.ts`: the swaps of an interval are read in pages
and their volumes in dollars summed up by days. While the pages are read more swaps may be stored,
of any time. The decimals and the price of a token are read with the first page that names it, and
kept for the pages after it.

## What is deliberately absent

Identifiers of requests, and the caller's texts of the error: whatever fails, the caller is told
that the volume is not available.

## Main definitions

* `Source` — what the database and the cache answer, in every round
* `getVolume` — the source function

## Main results

* `volume_exact` — what a series that is returned sums up
* `volume_ends` — the loop comes to an end
-/

namespace Swyft.Admin

open Checked Grouping Keyset
open Js (Number)

inductive TimeInterval where
  | oneDay | sevenDays | thirtyDays
  deriving DecidableEq

/-- `INTERVAL_MS`. -/
def TimeInterval.ms : TimeInterval → ℤ
  | oneDay => 24 * 60 * 60 * 1000
  | sevenDays => 7 * 24 * 60 * 60 * 1000
  | thirtyDays => 30 * 24 * 60 * 60 * 1000

/-- `resolveWindow`, at a time. -/
def resolveWindow (interval : TimeInterval) (now : ℤ) : ℤ × ℤ := (now - interval.ms, now)

/-- What is selected of a swap: its row, with its identifier and time and the tokens of its pool. -/
structure PricedSwap where
  id : String
  timestamp : ℤ
  token0Address : String
  token1Address : String
  row : Indexer.SwapRow
  deriving DecidableEq

namespace PricedSwap

/-- The order of the swaps that are read: by time, and by identifier. -/
def place (s : PricedSwap) : ℤ ×ₗ String := toLex (s.timestamp, s.id)

def Earlier (s s' : PricedSwap) : Prop := s.place ≤ s'.place

instance : DecidableRel Earlier := fun _ _ => inferInstanceAs (Decidable (_ ≤ _))

instance : IsTrans PricedSwap Earlier := ⟨fun _ _ _ => le_trans (α := ℤ ×ₗ String)⟩

instance : Std.Total Earlier := ⟨fun s s' => le_total s.place s'.place⟩

/-- `timestamp.toISOString().slice(0, 10)`. -/
def day (s : PricedSwap) : String := String.ofList ((Js.isoChars s.timestamp).take 10)

/-- The tokens of its pool. -/
def tokens (s : PricedSwap) : List String := [s.token0Address, s.token1Address]

end PricedSwap

/-- What is answered in each round of the loop: the table of the swaps, to which rows are added
only; the decimals of a token, from its table; the price of a token, from the cache; and whether the
database answers at all. -/
structure Source where
  swap : ℕ → List PricedSwap
  nodup : ∀ n, ((swap n).map PricedSwap.id).Nodup
  grows : ∀ n, swap n ⊆ swap (n + 1)
  token : ℕ → String → Option ℤ
  price : ℕ → String → Option Number
  answers : ℕ → Bool

/-- `pageSize`. -/
def pageSize : ℕ := 1000

/-- The rows of a window, in order. -/
def Source.window (D : Source) (start stop : ℤ) (n : ℕ) : List PricedSwap :=
  ((D.swap n).filter fun s => start ≤ s.timestamp ∧ s.timestamp < stop).insertionSort
    PricedSwap.Earlier

/-- The rows behind the one a cursor names. -/
def skipTo (cursorId : Option String) (rows : List PricedSwap) : List PricedSwap :=
  match cursorId with
  | none => rows
  | some id => (rows.dropWhile (·.id ≠ id)).tail

/-- What the loop has gathered. -/
structure Gathered where
  tokenByAddress : String → Option ℤ
  prices : String → Option Number
  byDay : OrderedMap String Number
  cursorId : Option String

def Gathered.empty : Gathered := ⟨fun _ => none, fun _ => none, .empty, none⟩

/-- The decimals and prices of the tokens that are new on a page. -/
def Gathered.learn (D : Source) (n : ℕ) (g : Gathered) (swaps : List PricedSwap) :
    Except String Gathered := do
  let addresses := swaps.flatMap PricedSwap.tokens
  let missingAddresses := addresses.filter fun a => (g.tokenByAddress a).isNone
  require (∀ a ∈ missingAddresses, (D.token n a).isSome) "Swap pool token metadata is unavailable"
  require (∀ a ∈ missingAddresses, (D.price n a).any Stats.isPrice) "USD price unavailable"
  pure { g with
    tokenByAddress := fun a => if a ∈ missingAddresses then D.token n a else g.tokenByAddress a
    prices := fun a => if a ∈ missingAddresses then D.price n a else g.prices a }

/-- The volume of a swap. -/
def volumeUsd (tokenByAddress : String → Option ℤ) (prices : String → Option Number)
    (s : PricedSwap) : Except String Number :=
  match tokenByAddress s.token0Address, tokenByAddress s.token1Address,
    prices s.token0Address, prices s.token1Address with
  | some decimals0, some decimals1, some price0, some price1 =>
    Stats.calculateSwapVolumeUsd s.row decimals0 decimals1 price0 price1
  | _, _, _, _ => .error "Swap pool token metadata or price is unavailable"

/-- One swap more. -/
def addVolume (tokenByAddress : String → Option ℤ) (prices : String → Option Number)
    (byDay : OrderedMap String Number) (s : PricedSwap) :
    Except String (OrderedMap String Number) := do
  let volume ← volumeUsd tokenByAddress prices s
  let dailyVolume := ((byDay.get s.day).getD (.finite 0)).add volume
  require dailyVolume.isFinite "Computed daily volume is invalid"
  pure (byDay.set s.day dailyVolume)

/-- One round of the loop: the sums, or what the next round begins with. -/
def Source.round (D : Source) (start stop : ℤ) (n : ℕ) (g : Gathered) :
    Except String (OrderedMap String Number ⊕ Gathered) := do
  require (D.answers n) "The database does not answer"
  let swaps := (skipTo g.cursorId (D.window start stop n)).take pageSize
  let g ← g.learn D n swaps
  let byDay ← swaps.foldlM (addVolume g.tokenByAddress g.prices) g.byDay
  if swaps.length < pageSize then pure (.inl byDay)
  else
    let nextCursor := (swaps.getLast?.map PricedSwap.id).getD ""
    require (nextCursor ≠ "" ∧ some nextCursor ≠ g.cursorId)
      "Swap volume pagination cursor did not advance"
    pure (.inr { g with byDay, cursorId := some nextCursor })

/-- The loop from a round on, of at most so many rounds. -/
def Source.loop (D : Source) (start stop : ℤ) :
    ℕ → ℕ → Gathered → Option (Except String (OrderedMap String Number))
  | 0, _, _ => none
  | fuel + 1, n, g =>
    match D.round start stop n g with
    | .error message => some (.error message)
    | .ok (.inl byDay) => some (.ok byDay)
    | .ok (.inr g) => D.loop start stop fuel (n + 1) g

/-- What is returned. -/
structure VolumeSeries where
  interval : TimeInterval
  start : ℤ
  stop : ℤ
  series : List (String × Number)

/-- `getVolume`, at a time. -/
def getVolume (D : Source) (interval : TimeInterval) (now : ℤ) (fuel : ℕ) :
    Option (Except String VolumeSeries) :=
  let (start, stop) := resolveWindow interval now
  (D.loop start stop fuel 0 .empty).map fun
    | .error _ => .error "Analytics volume is unavailable"
    | .ok byDay => .ok ⟨interval, start, stop, byDay.entries⟩

/-! ### What is read -/

section Window

variable {D : Source} {start stop : ℤ} {n : ℕ} {s : PricedSwap}

theorem mem_window : s ∈ D.window start stop n ↔
    s ∈ D.swap n ∧ start ≤ s.timestamp ∧ s.timestamp < stop := by
  rw [Source.window, List.mem_insertionSort, List.mem_filter, decide_eq_true_iff]

theorem nodup_window : ((D.window start stop n).map PricedSwap.id).Nodup :=
  ((List.perm_insertionSort _ _).map _).nodup_iff.mpr
    ((List.filter_sublist.map _).nodup (D.nodup n))

/-- The rows of a window stand in strictly rising order. -/
theorem pairwise_window : (D.window start stop n).Pairwise fun s s' => s.place < s'.place := by
  have hsorted : (D.window start stop n).Pairwise PricedSwap.Earlier :=
    List.pairwise_insertionSort _ _
  have hids : ((D.window start stop n).map PricedSwap.id).Nodup := nodup_window
  refine hsorted.imp₂ (fun s s' hle hne => ?_) (List.pairwise_map.mp hids)
  refine lt_of_le_of_ne hle fun heq => hne ?_
  exact congrArg (fun p => (ofLex p).2) heq

theorem window_grows : D.window start stop n ⊆ D.window start stop (n + 1) := fun _ hs =>
  mem_window.mpr ⟨D.grows n (mem_window.mp hs).1, (mem_window.mp hs).2⟩

/-- A cursor names the row of a place. -/
def Names (D : Source) (start stop : ℤ) (n : ℕ) :
    Option String → Option (ℤ ×ₗ String) → Prop
  | none, none => True
  | some id, some t => ∃ s ∈ D.window start stop n, s.id = id ∧ s.place = t
  | _, _ => False

/-- Behind the row of a cursor come the rows after its place. -/
theorem skipTo_eq {cursorId : Option String} {cursor : Option (ℤ ×ₗ String)}
    (h : Names D start stop n cursorId cursor) :
    skipTo cursorId (D.window start stop n)
      = after PricedSwap.place (D.window start stop n) cursor := by
  cases cursorId with
  | none =>
    cases cursor with
    | none => rfl
    | some t => exact h.elim
  | some id =>
    cases cursor with
    | none => exact h.elim
    | some t =>
      obtain ⟨s, hs, rfl, rfl⟩ := h
      obtain ⟨before, rest, hrows⟩ := List.append_of_mem hs
      have hsorted : (D.window start stop n).Pairwise fun s s' => s.place < s'.place :=
        pairwise_window
      have hids : ((D.window start stop n).map PricedSwap.id).Nodup := nodup_window
      rw [hrows] at hsorted hids ⊢
      rw [after_of_append hsorted]
      rw [List.map_append, List.nodup_append] at hids
      have hbefore : ∀ s' ∈ before, decide (s'.id ≠ s.id) = true := fun s' hs' =>
        decide_eq_true (hids.2.2 s'.id (List.mem_map_of_mem hs') s.id (by simp))
      simp only [skipTo]
      rw [List.dropWhile_append_of_pos hbefore, List.dropWhile_cons_of_neg (by simp)]
      rfl

end Window

/-! ### What is known of the tokens -/

/-- Decimals and a price that have been answered together. -/
def Answered (D : Source) (a : String) (decimals : ℤ) (price : Number) : Prop :=
  ∃ n, D.token n a = some decimals ∧ D.price n a = some price

namespace Gathered

variable {D : Source} {n : ℕ} {g g' : Gathered} {swaps : List PricedSwap}

/-- What is known of a token has been answered. -/
def Known (D : Source) (g : Gathered) : Prop :=
  ∀ a decimals, g.tokenByAddress a = some decimals →
    ∃ price, g.prices a = some price ∧ Answered D a decimals price

/-- What is known stays as it is. -/
def Extends (g g' : Gathered) : Prop :=
  ∀ a, (g.tokenByAddress a).isSome →
    g'.tokenByAddress a = g.tokenByAddress a ∧ g'.prices a = g.prices a

theorem Extends.trans {g'' : Gathered} (h : g.Extends g') (h' : g'.Extends g'') :
    g.Extends g'' := by
  intro a ha
  obtain ⟨htoken, hprice⟩ := h a ha
  obtain ⟨htoken', hprice'⟩ := h' a (htoken ▸ ha)
  exact ⟨htoken'.trans htoken, hprice'.trans hprice⟩

/-- What a page adds to what is known. -/
theorem learn_eq_ok (h : g.learn D n swaps = .ok g') (hknown : g.Known D) :
    g.Extends g' ∧ g'.Known D ∧ g'.byDay = g.byDay ∧ g'.cursorId = g.cursorId ∧
      ∀ s ∈ swaps, ∀ a ∈ s.tokens, (g'.tokenByAddress a).isSome := by
  simp only [learn, bind_eq_ok, require_eq_ok, pure_eq_ok] at h
  obtain ⟨-, htokens, -, hprices, rfl⟩ := h
  refine ⟨fun a ha => ?_, fun a decimals ha => ?_, rfl, rfl, fun s hs a ha => ?_⟩
  · have hne : g.tokenByAddress a ≠ none := Option.isSome_iff_ne_none.mp ha
    simp [List.mem_filter, hne]
  · simp only at ha ⊢
    split at ha
    case isTrue hmissing =>
      obtain ⟨price, hprice, -⟩ := (Option.any_eq_true _ _).mp (hprices a hmissing)
      exact ⟨price, (if_pos hmissing).trans hprice, n, ha, hprice⟩
    case isFalse hmissing =>
      obtain ⟨price, hprice, hanswered⟩ := hknown a decimals ha
      exact ⟨price, (if_neg hmissing).trans hprice, hanswered⟩
  · simp only
    split
    case isTrue hmissing => exact htokens a hmissing
    case isFalse hmissing =>
      by_contra hnone
      refine hmissing (List.mem_filter.mpr ⟨List.mem_flatMap.mpr ⟨s, hs, ha⟩, ?_⟩)
      simpa using hnone

end Gathered

/-! ### What is summed up -/

section Sums

variable {token token' : String → Option ℤ} {price price' : String → Option Number}

/-- The volume of a swap depends on what is known of its tokens. -/
theorem volumeUsd_congr {s : PricedSwap}
    (h : ∀ a ∈ s.tokens, token' a = token a ∧ price' a = price a) :
    volumeUsd token' price' s = volumeUsd token price s := by
  obtain ⟨htoken0, hprice0⟩ := h s.token0Address (by simp [PricedSwap.tokens])
  obtain ⟨htoken1, hprice1⟩ := h s.token1Address (by simp [PricedSwap.tokens])
  rw [volumeUsd, volumeUsd, htoken0, hprice0, htoken1, hprice1]

theorem foldlM_addVolume_congr {swaps : List PricedSwap} {byDay : OrderedMap String Number}
    (h : ∀ s ∈ swaps, ∀ a ∈ s.tokens, token' a = token a ∧ price' a = price a) :
    swaps.foldlM (addVolume token' price') byDay = swaps.foldlM (addVolume token price) byDay := by
  induction swaps generalizing byDay with
  | nil => rfl
  | cons s swaps ih =>
    rw [List.foldlM_cons, List.foldlM_cons, addVolume, addVolume,
      volumeUsd_congr (h s List.mem_cons_self)]
    congr 1
    funext byDay'
    exact ih fun s' hs' => h s' (List.mem_cons_of_mem s hs')

/-- The total of a day, its swaps added one by one. -/
def total (volume : PricedSwap → Number) (swaps : List PricedSwap) : Number :=
  swaps.foldl (fun sum s => sum.add (volume s)) (.finite 0)

/-- The volume of a swap, or zero. -/
def volumeOf (token : String → Option ℤ) (price : String → Option Number) (s : PricedSwap) :
    Number :=
  match volumeUsd token price s with
  | .ok volume => volume
  | .error _ => .finite 0

/-- **The sums by days.** Every day that occurs has one, in the order of the rows. -/
theorem foldlM_addVolume_eq_ok {swaps : List PricedSwap} {byDay : OrderedMap String Number}
    (h : swaps.foldlM (addVolume token price) .empty = .ok byDay) :
    (∀ s ∈ swaps, volumeUsd token price s = .ok (volumeOf token price s)) ∧
      byDay.entries = (grouped PricedSwap.day swaps).map fun g =>
        (g.1, total (volumeOf token price) g.2) := by
  induction swaps using List.reverseRecOn generalizing byDay with
  | nil =>
    cases h
    exact ⟨by simp, rfl⟩
  | append_singleton swaps s ih =>
    rw [List.foldlM_append, bind_eq_ok] at h
    obtain ⟨byDay', hfold, hlast⟩ := h
    obtain ⟨hvolumes, hentries⟩ := ih hfold
    simp only [List.foldlM_cons, List.foldlM_nil, addVolume, bind_eq_ok, require_eq_ok,
      pure_eq_ok] at hlast
    obtain ⟨_, ⟨volume, hvolume, -, -, rfl⟩, rfl⟩ := hlast
    have hof : volumeOf token price s = volume := by rw [volumeOf, hvolume]
    constructor
    · intro s' hs'
      rcases List.mem_append.mp hs' with hs' | hs'
      · exact hvolumes s' hs'
      · obtain rfl := List.mem_singleton.mp hs'
        rw [hof, hvolume]
    · rw [grouped_concat]
      refine entries_set_insert (nodup_keys_grouped swaps) hentries (fun hnew => ?_)
        fun as hold => ?_
      · have hnone : byDay'.get s.day = none := OrderedMap.get_eq_none.mpr fun v hv => by
          have hmem : (s.day, v) ∈ byDay'.entries := hv
          rw [hentries] at hmem
          obtain ⟨g, hg, heq⟩ := List.mem_map.mp hmem
          exact hnew (List.mem_map.mpr ⟨g, hg, congrArg Prod.fst heq⟩)
        rw [hnone, ← hof]
        rfl
      · have hsome : byDay'.get s.day = some (total (volumeOf token price) as) :=
          OrderedMap.get_eq_some.mpr (hentries ▸ List.mem_map_of_mem hold : _ ∈ byDay'.entries)
        rw [hsome, ← hof, total, total, List.foldl_concat]
        rfl

end Sums

/-! ### The loop -/

section Loop

variable {D : Source} {start stop : ℤ} {n fuel : ℕ} {g : Gathered}
  {cursor : Option (ℤ ×ₗ String)}

/-- **One round.** It reads the page of its cursor; it goes on from the last row of a page that is
full, and ends with one that is not. -/
theorem round_eq_ok {result : OrderedMap String Number ⊕ Gathered}
    (h : D.round start stop n g = .ok result) (hcursor : Names D start stop n g.cursorId cursor)
    (hknown : g.Known D) :
    ∃ g' byDay, g.Extends g' ∧ g'.Known D ∧
      (((after PricedSwap.place (D.window start stop n) cursor).take pageSize).foldlM
        (addVolume g'.tokenByAddress g'.prices) g.byDay = .ok byDay) ∧
      (∀ s ∈ (after PricedSwap.place (D.window start stop n) cursor).take pageSize,
        ∀ a ∈ s.tokens, (g'.tokenByAddress a).isSome) ∧
      ((after PricedSwap.place (D.window start stop n) cursor).length < pageSize ∧
          result = .inl byDay ∨
        pageSize ≤ (after PricedSwap.place (D.window start stop n) cursor).length ∧
          ∃ first s, (after PricedSwap.place (D.window start stop n) cursor).take pageSize
            = first ++ [s] ∧
          result = .inr { g' with byDay, cursorId := some s.id } ∧
          Names D start stop (n + 1) (some s.id) (some s.place)) := by
  simp only [Source.round, bind_eq_ok, require_eq_ok] at h
  obtain ⟨-, -, g', hlearn, byDay, hfold, h⟩ := h
  rw [skipTo_eq hcursor] at hlearn hfold h
  obtain ⟨hext, hknown', hbyDay, -, htokens⟩ := Gathered.learn_eq_ok hlearn hknown
  rw [hbyDay] at hfold
  refine ⟨g', byDay, hext, hknown', hfold, htokens, ?_⟩
  split at h
  case isTrue hshort =>
    cases h
    rw [List.length_take] at hshort
    exact .inl ⟨by omega, rfl⟩
  case isFalse hfull =>
    have hfull : pageSize ≤ (after PricedSwap.place (D.window start stop n) cursor).length := by
      rw [List.length_take] at hfull
      omega
    obtain ⟨first, s, rest, hpage, -⟩ := exists_last_of_take (by decide) hfull
    have hs : s ∈ D.window start stop n :=
      (mem_after.mp (List.mem_of_mem_take (hpage ▸ List.mem_concat_self))).1
    simp only [bind_eq_ok, pure_eq_ok, hpage, List.getLast?_concat, Option.map_some,
      Option.getD_some] at h
    obtain ⟨-, -, rfl⟩ := h
    exact .inr ⟨hfull, first, s, hpage, rfl, s, window_grows hs, rfl, rfl⟩

/-- **The loop, when it returns.** It has read pages of the table as it grew, and has summed up
their rows by what is known at the end. -/
theorem loop_eq_ok {byDay : OrderedMap String Number}
    (h : D.loop start stop fuel n g = some (.ok byDay))
    (hcursor : Names D start stop n g.cursorId cursor) (hknown : g.Known D) :
    ∃ pages g', Reads PricedSwap.place pageSize (D.window start stop) n cursor pages ∧
      g.Extends g' ∧ g'.Known D ∧
      pages.flatten.foldlM (addVolume g'.tokenByAddress g'.prices) g.byDay = .ok byDay ∧
      ∀ s ∈ pages.flatten, ∀ a ∈ s.tokens, (g'.tokenByAddress a).isSome := by
  induction fuel generalizing n g cursor with
  | zero => cases h
  | succ fuel ih =>
    rw [Source.loop] at h
    split at h
    case h_1 => cases h
    case h_2 byDay' hround =>
      cases h
      obtain ⟨g', byDay', hext, hknown', hfold, htokens, hends⟩ := round_eq_ok hround hcursor hknown
      rcases hends with ⟨hshort, heq⟩ | ⟨-, first, s, -, heq, -⟩
      · cases heq
        rw [List.take_of_length_le hshort.le] at hfold htokens
        refine ⟨_, g', .last hshort, hext, hknown', ?_, ?_⟩
        · rwa [List.flatten_singleton]
        · rwa [List.flatten_singleton]
      · cases heq
    case h_3 g₁ hround =>
      obtain ⟨g', byDay', hext, hknown', hfold, htokens, hends⟩ := round_eq_ok hround hcursor hknown
      rcases hends with ⟨-, heq⟩ | ⟨-, first, s, hpage, heq, hnames⟩
      · cases heq
      · cases heq
        obtain ⟨pages, g₂, hreads, hext₂, hknown₂, hrest, htokens₂⟩ := ih h hnames hknown'
        have hsame : ∀ s' ∈ first ++ [s], ∀ a ∈ s'.tokens,
            g₂.tokenByAddress a = g'.tokenByAddress a ∧ g₂.prices a = g'.prices a :=
          fun s' hs' a ha => hext₂ a (htokens s' (hpage ▸ hs') a ha)
        refine ⟨_, g₂, .more hpage hreads, hext.trans hext₂, hknown₂, ?_, fun s' hs' a ha => ?_⟩
        · rw [List.flatten_cons, List.foldlM_append, foldlM_addVolume_congr hsame, ← hpage, hfold]
          exact hrest
        · rcases List.mem_append.mp (List.flatten_cons ▸ hs') with hs' | hs'
          · rw [(hsame s' hs' a ha).1]
            exact htokens s' (hpage ▸ hs') a ha
          · exact htokens₂ s' hs' a ha

/-- With more rounds allowed the loop ends the same way. -/
theorem loop_mono {result : Except String (OrderedMap String Number)}
    (h : D.loop start stop fuel n g = some result) {more : ℕ} (hle : fuel ≤ more) :
    D.loop start stop more n g = some result := by
  induction fuel generalizing n g more with
  | zero => cases h
  | succ fuel ih =>
    obtain ⟨more, rfl⟩ := Nat.exists_eq_add_of_le' (Nat.one_le_of_lt hle)
    rw [Source.loop] at h ⊢
    split at h
    case h_1 => exact h
    case h_2 => exact h
    case h_3 => exact ih h (Nat.le_of_succ_le_succ hle)

/-- The loop ends when there is nothing more to read. -/
theorem exists_loop {pages : List (List PricedSwap)}
    (hreads : Reads PricedSwap.place pageSize (D.window start stop) n cursor pages)
    (hcursor : Names D start stop n g.cursorId cursor) (hknown : g.Known D) :
    ∃ fuel result, D.loop start stop fuel n g = some result := by
  induction hreads generalizing g with
  | @last n cursor hshort =>
    rcases hround : D.round start stop n g with e | byDay | g₁
    · exact ⟨1, _, by rw [Source.loop, hround]⟩
    · exact ⟨1, _, by rw [Source.loop, hround]⟩
    · obtain ⟨g', byDay', -, -, -, -, hends⟩ := round_eq_ok hround hcursor hknown
      rcases hends with ⟨-, heq⟩ | ⟨hfull, -⟩
      · cases heq
      · exact absurd hshort (not_lt.mpr hfull)
  | @more n cursor first s pages hpage hrest ih =>
    rcases hround : D.round start stop n g with e | byDay | g₁
    · exact ⟨1, _, by rw [Source.loop, hround]⟩
    · exact ⟨1, _, by rw [Source.loop, hround]⟩
    · obtain ⟨g', byDay', -, hknown', -, -, hends⟩ := round_eq_ok hround hcursor hknown
      rcases hends with ⟨-, heq⟩ | ⟨-, first', s', hpage', heq, hnames⟩
      · cases heq
      · cases heq
        obtain ⟨-, hlast⟩ := List.append_inj' (hpage.symm.trans hpage') rfl
        obtain rfl : s = s' := (List.cons.inj hlast).1
        obtain ⟨fuel, result, hloop⟩ :=
          ih (g := { g' with byDay := byDay', cursorId := some s.id }) hnames hknown'
        exact ⟨fuel + 1, result, by rw [Source.loop, hround]; exact hloop⟩

end Loop

/-! ### What is returned -/

/-- What a series of volumes is made of: swaps of the window, each counted once, among them all that
were stored when reading began; one count of decimals and one price for every token; and for every
day that occurs, in order, the total of its swaps. -/
structure SumsUp (D : Source) (start stop : ℤ) (series : List (String × Number))
    (rows : List PricedSwap) (decimals : String → ℤ) (price : String → Number)
    (volume : PricedSwap → Number) : Prop where
  once : rows.Pairwise fun s s' => s.place < s'.place
  sound : ∀ s ∈ rows, (∃ n, s ∈ D.swap n) ∧ start ≤ s.timestamp ∧ s.timestamp < stop
  complete : ∀ s ∈ D.swap 0, start ≤ s.timestamp ∧ s.timestamp < stop → s ∈ rows
  answered : ∀ s ∈ rows, ∀ a ∈ s.tokens, Answered D a (decimals a) (price a)
  volumes : ∀ s ∈ rows, Stats.calculateSwapVolumeUsd s.row (decimals s.token0Address)
    (decimals s.token1Address) (price s.token0Address) (price s.token1Address) = .ok (volume s)
  series_eq : series = (grouped PricedSwap.day rows).map fun g => (g.1, total volume g.2)

section Returned

variable {D : Source} {interval : TimeInterval} {now : ℤ} {fuel : ℕ}

/-- **The series is exact.** However many pages it takes, and whatever is stored meanwhile, a series
that is returned is made of swaps of its window, each of them once. -/
theorem volume_exact {out : VolumeSeries} (h : getVolume D interval now fuel = some (.ok out)) :
    out.interval = interval ∧ ∃ rows decimals price volume,
      SumsUp D (now - interval.ms) now out.series rows decimals price volume := by
  obtain ⟨result, hloop, hresult⟩ := Option.map_eq_some_iff.mp h
  cases result with
  | error => cases hresult
  | ok byDay =>
    cases hresult
    have hstart : Names D (now - interval.ms) now 0 none none := trivial
    obtain ⟨pages, g, hreads, -, hknown, hfold, htokens⟩ :=
      loop_eq_ok hloop hstart fun a decimals ha => by cases ha
    obtain ⟨hvolumes, hseries⟩ := foldlM_addVolume_eq_ok hfold
    have hfound : ∀ s ∈ pages.flatten, ∀ a ∈ s.tokens, ∃ decimals price,
        g.tokenByAddress a = some decimals ∧ g.prices a = some price ∧
          Answered D a decimals price := fun s hs a ha => by
      obtain ⟨decimals, hdecimals⟩ := Option.isSome_iff_exists.mp (htokens s hs a ha)
      obtain ⟨price, hprice, hanswered⟩ := hknown a decimals hdecimals
      exact ⟨decimals, price, hdecimals, hprice, hanswered⟩
    refine ⟨rfl, pages.flatten, fun a => (g.tokenByAddress a).getD 0,
      fun a => (g.prices a).getD (.finite 0), volumeOf g.tokenByAddress g.prices,
      (hreads.sorted fun _ => pairwise_window).1, fun s hs => ?_, fun s hs hin => ?_,
      fun s hs a ha => ?_, fun s hs => ?_, hseries⟩
    · obtain ⟨n, -, hrow⟩ := hreads.sound s hs
      exact ⟨⟨n, (mem_window.mp hrow).1⟩, (mem_window.mp hrow).2⟩
    · have hgrows : ∀ m, D.window (now - interval.ms) now m ⊆
          D.window (now - interval.ms) now (m + 1) := fun _ => window_grows
      exact hreads.mem (fun _ => pairwise_window) hgrows s (mem_window.mpr ⟨hs, hin⟩)
    · obtain ⟨decimals, price, hdecimals, hprice, hanswered⟩ := hfound s hs a ha
      rw [hdecimals, hprice]
      exact hanswered
    · obtain ⟨decimals0, price0, hdecimals0, hprice0, -⟩ := hfound s hs s.token0Address
        (by simp [PricedSwap.tokens])
      obtain ⟨decimals1, price1, hdecimals1, hprice1, -⟩ := hfound s hs s.token1Address
        (by simp [PricedSwap.tokens])
      have hvolume := hvolumes s hs
      rw [volumeUsd, hdecimals0, hdecimals1, hprice0, hprice1] at hvolume
      rw [hdecimals0, hdecimals1, hprice0, hprice1]
      exact hvolume

/-- **The loop comes to an end**, if all swaps that are ever stored are among finitely many. -/
theorem volume_ends {all : List PricedSwap} (hall : ∀ n, D.swap n ⊆ all) :
    ∃ result fuel, ∀ more, fuel ≤ more → getVolume D interval now more = some result := by
  have hbound : ∀ m, D.window (now - interval.ms) now m ⊆ all :=
    fun m s hs => hall m (mem_window.mp hs).1
  obtain ⟨pages, hreads⟩ : ∃ pages, Reads PricedSwap.place pageSize
      (D.window (now - interval.ms) now) 0 none pages := exists_reads (by decide) hbound 0 none
  obtain ⟨fuel, result, hloop⟩ := exists_loop (g := .empty) hreads trivial
    fun a decimals ha => by cases ha
  have hends : ∀ more, fuel ≤ more → getVolume D interval now more = Option.map _ (some result) :=
    fun more hle => congrArg (Option.map _) (loop_mono hloop hle)
  exact ⟨_, fuel, hends⟩

/-- A swap of an amount for the same one. -/
def swapped (amount : String) : Indexer.SwapRow :=
  ⟨"P", "GA", "GA", amount, "-" ++ amount, "1", 0, "t", "0"⟩

/-- Two swaps of a day, the later one stored first, and from the next round on a third. -/
def threeSwaps : Source where
  swap n := [⟨"b", 2000, "A", "B", swapped "300"⟩, ⟨"a", 1000, "A", "B", swapped "100"⟩] ++
    if n = 0 then [] else [⟨"c", 1500, "A", "B", swapped "200"⟩]
  nodup n := by cases n <;> simp
  grows n := by cases n <;> simp
  token _ _ := some 2
  price _ _ := some (.finite 1)
  answers _ := true

theorem volume_exact_threeSwaps : ∃ out : VolumeSeries, out.series.length = 1 ∧
    out.interval = .oneDay ∧ ∃ rows decimals price volume,
      SumsUp threeSwaps 0 86400000 out.series rows decimals price volume := by
  have hrun : (getVolume threeSwaps .oneDay 86400000 1).any (fun
      | .ok out => out.series.length = 1
      | .error _ => false) = true := by decide +kernel
  obtain ⟨result, hresult, hlength⟩ := (Option.any_eq_true _ _).mp hrun
  cases result with
  | error => cases hlength
  | ok out => exact ⟨out, of_decide_eq_true hlength, volume_exact hresult⟩

theorem volume_ends_threeSwaps : ∃ result fuel, ∀ more, fuel ≤ more →
    getVolume threeSwaps .oneDay 86400000 more = some result := by
  have hall : ∀ n, threeSwaps.swap n ⊆ threeSwaps.swap 1 := by
    intro n s hs
    cases n with
    | zero => exact List.mem_append_left _ (by simpa [threeSwaps] using hs)
    | succ n => exact hs
  exact volume_ends hall

end Returned

end Swyft.Admin
