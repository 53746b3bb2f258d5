import Mathlib.Data.List.Infix
import Mathlib.Data.String.Basic
import Swyft.Lib.OffsetPages
import Swyft.Pools.Model

/-!
# What a list of pools shows

The query of a list names up to two tokens, and only pools with them are asked for.
`listActivePools` does not look at them, and searches ids and addresses, but no symbols. The pools
that it selects come sorted by the metric and by id, and page after page each of them once.

A client goes from page to page; each response is computed or comes from the cache, where it was put
for the same page of the same table.

## Main definitions

* `PoolListQuery.asks` — the pools that a query asks for
* `items` — what a client gets that goes through all pages
* `Exact` — the pools asked for, once each and in order

## Main results

* `items_eq` — what a client gets, page by page
* `list_exact_iff` — when it is what was asked for
-/

namespace Swyft.Pools

open OffsetPages

/-- The ids are compared in a linear order. -/
structure Locale.IsCollation (locale : Locale) (ids : List String) : Prop where
  total : ∀ a b, locale.localeCompare a b ≤ 0 ∨ locale.localeCompare b a ≤ 0
  trans : ∀ a b c, locale.localeCompare a b ≤ 0 → locale.localeCompare b c ≤ 0 →
    locale.localeCompare a c ≤ 0
  eq : ∀ a ∈ ids, ∀ b ∈ ids, locale.localeCompare a b ≤ 0 → locale.localeCompare b a ≤ 0 → a = b

/-- What the texts of a query mean: when a pool matches a search, by the symbols or the addresses of
its tokens, and when two addresses are the same. -/
structure Reading where
  matchesSearch : String → PoolRow → Bool
  sameAddress : String → String → Bool

/-- A pool matches the search and has the tokens that a query names, each as one of its two. -/
def PoolListQuery.matches (reading : Reading) (query : PoolListQuery) (pool : PoolRow) : Bool :=
  let hasToken (address : String) : Bool :=
    reading.sameAddress pool.token0Address address ||
      reading.sameAddress pool.token1Address address
  query.search.all (reading.matchesSearch · pool) && query.token0.all hasToken &&
    query.token1.all hasToken

/-- The pools that a query asks for. -/
def PoolListQuery.asks (reading : Reading) (query : PoolListQuery) (pool : PoolRow) : Bool :=
  (query.includeInactive || pool.active) && query.matches reading pool

/-! ### Sorting -/

variable {locale : Locale} {orderBy : PoolOrderBy} {table : List PoolRow}

theorem comparePools_le_iff {a b : PoolSnapshot} :
    comparePools locale orderBy a b ≤ 0 ↔ b.metric orderBy < a.metric orderBy ∨
      (a.metric orderBy = b.metric orderBy ∧ locale.localeCompare a.id b.id ≤ 0) := by
  rw [comparePools]
  by_cases heq : b.metric orderBy - a.metric orderBy ≠ 0
  · rw [if_pos heq]
    have hne : a.metric orderBy ≠ b.metric orderBy := fun h => heq (sub_eq_zero.mpr h.symm)
    by_cases hlt : b.metric orderBy - a.metric orderBy < 0
    · simp [hlt, sub_neg.mp hlt]
    · simp [hlt, hne, not_lt.mp (mt sub_neg.mpr hlt)]
  · have heq := sub_eq_zero.mp (not_not.mp heq)
    simp [heq]

/-- The order of a list. -/
def Comes (locale : Locale) (orderBy : PoolOrderBy) (a b : PoolSnapshot) : Bool :=
  comparePools locale orderBy a b ≤ 0

theorem comes_iff {a b : PoolSnapshot} :
    Comes locale orderBy a b ↔ b.metric orderBy < a.metric orderBy ∨
      (a.metric orderBy = b.metric orderBy ∧ locale.localeCompare a.id b.id ≤ 0) := by
  rw [Comes, decide_eq_true_iff, comparePools_le_iff]

section Collation

variable {ids : List String} (hlocale : locale.IsCollation ids)

include hlocale in
theorem comes_total (a b : PoolSnapshot) :
    Comes locale orderBy a b || Comes locale orderBy b a := by
  rw [Bool.or_eq_true, comes_iff, comes_iff]
  rcases lt_trichotomy (a.metric orderBy) (b.metric orderBy) with hlt | heq | hlt
  · exact Or.inr (Or.inl hlt)
  · exact (hlocale.total a.id b.id).imp (fun h => Or.inr ⟨heq, h⟩) fun h => Or.inr ⟨heq.symm, h⟩
  · exact Or.inl (Or.inl hlt)

include hlocale in
theorem comes_trans (a b c : PoolSnapshot) (hab : Comes locale orderBy a b)
    (hbc : Comes locale orderBy b c) : Comes locale orderBy a c := by
  rw [comes_iff] at *
  rcases hab with hab | ⟨hab, hid⟩
  · rcases hbc with hbc | ⟨hbc, -⟩
    · exact Or.inl (hbc.trans hab)
    · exact Or.inl (hbc ▸ hab)
  · rcases hbc with hbc | ⟨hbc, hid'⟩
    · exact Or.inl (hab ▸ hbc)
    · exact Or.inr ⟨hab.trans hbc, hlocale.trans _ _ _ hid hid'⟩

include hlocale in
theorem comes_antisymm {a b : PoolSnapshot} (ha : a.id ∈ ids) (hb : b.id ∈ ids)
    (hab : Comes locale orderBy a b) (hba : Comes locale orderBy b a) : a.id = b.id := by
  rw [comes_iff] at hab hba
  rcases hab with hab | ⟨heq, hab⟩
  · rcases hba with hba | ⟨hba, -⟩
    · exact absurd (hab.trans hba) (lt_irrefl _)
    · exact absurd hba hab.ne
  · rcases hba with hba | ⟨-, hba⟩
    · exact absurd hba heq.not_lt
    · exact hlocale.eq _ ha _ hb hab hba

end Collation

/-! ### Pages -/

/-- The pools that `listActivePools` selects, in order. -/
def listed (locale : Locale) (table : List PoolRow) (query : PoolListQuery) : List PoolSnapshot :=
  ((table.filter (query.accepts locale)).map toSnapshot).mergeSort (Comes locale query.orderBy)

theorem listed_perm (locale : Locale) (table : List PoolRow) (query : PoolListQuery) :
    (listed locale table query).Perm ((table.filter (query.accepts locale)).map toSnapshot) :=
  List.mergeSort_perm _ _

/-- Rows are known by their ids. -/
theorem eq_of_id_eq (hnodup : (table.map PoolRow.id).Nodup) {a b : PoolRow} (ha : a ∈ table)
    (hb : b ∈ table) (h : a.id = b.id) : a = b :=
  List.inj_on_of_nodup_map hnodup ha hb h

section Table

variable (hlocale : locale.IsCollation (table.map PoolRow.id))
  (hnodup : (table.map PoolRow.id).Nodup)

include hlocale hnodup in
/-- **The order in which the database gives the rows does not matter.** -/
theorem mergeSort_order {order : List PoolRow → List PoolRow} (horder : ∀ l, (order l).Perm l)
    (query : PoolListQuery) :
    ((order (table.filter (query.accepts locale))).map toSnapshot).mergeSort
      (Comes locale query.orderBy) = listed locale table query := by
  have hperm : (((order (table.filter (query.accepts locale))).map toSnapshot).mergeSort
      (Comes locale query.orderBy)).Perm (listed locale table query) :=
    ((List.mergeSort_perm _ _).trans ((horder _).map toSnapshot)).trans
      (listed_perm locale table query).symm
  have hrow (a : PoolSnapshot) (ha : a ∈ listed locale table query) :
      ∃ row ∈ table, toSnapshot row = a := by
    obtain ⟨row, hrow, rfl⟩ := List.mem_map.mp ((listed_perm locale table query).mem_iff.mp ha)
    exact ⟨row, List.mem_of_mem_filter hrow, rfl⟩
  refine hperm.eq_of_pairwise ?_
    (List.pairwise_mergeSort (comes_trans hlocale) (comes_total hlocale) _)
    (List.pairwise_mergeSort (comes_trans hlocale) (comes_total hlocale) _)
  intro a b ha hb hab hba
  obtain ⟨row, hmem, rfl⟩ := hrow a (hperm.mem_iff.mp ha)
  obtain ⟨row', hmem', rfl⟩ := hrow b hb
  have hid := comes_antisymm hlocale (List.mem_map_of_mem hmem) (List.mem_map_of_mem hmem') hab hba
  rw [eq_of_id_eq hnodup hmem hmem' hid]

include hlocale hnodup in
/-- **A response is a page of the sorted pools.** -/
theorem listResponse_eq {order : List PoolRow → List PoolRow} (horder : ∀ l, (order l).Perm l)
    (query : PoolListQuery) :
    (listResponse locale order table query).items
        = (page query.limit (query.page - 1) (listed locale table query)).map toListItem ∧
      (listResponse locale order table query).totalPages
        = pageCount (listed locale table query).length query.limit := by
  have hlength : ((order (table.filter (query.accepts locale))).map toSnapshot).length
      = (listed locale table query).length := by
    rw [← mergeSort_order hlocale hnodup horder query, List.length_mergeSort]
  rw [← hlength, ← mergeSort_order hlocale hnodup horder query]
  exact ⟨rfl, rfl⟩

/-- What the cache may hold for a query: a response that was computed for it. -/
def Sound (locale : Locale) (table : List PoolRow) (query : PoolListQuery)
    (cache : String → Option PoolsListResponse) : Prop :=
  ∀ response ∈ cache (getListCacheKey query), ∃ order : List PoolRow → List PoolRow,
    (∀ l, (order l).Perm l) ∧ response = listResponse locale order table query

/-- The request of a page. -/
def pageOf (query : GetPoolsQueryDto) (i : ℕ) : GetPoolsQueryDto :=
  { query with page := some (i + 1) }

/-- The pools that a client gets that goes through all pages. -/
def items (locale : Locale) (order : ℕ → List PoolRow → List PoolRow) (table : List PoolRow)
    (cache : ℕ → String → Option PoolsListResponse) (query : GetPoolsQueryDto) :
    List PoolListItem :=
  let response (i : ℕ) := (getPools locale (order i) table (cache i) (pageOf query i)).1
  (List.range (response 0).totalPages).flatMap fun i => (response i).items

include hlocale hnodup in
theorem getPools_eq {order : List PoolRow → List PoolRow} (horder : ∀ l, (order l).Perm l)
    {cache : String → Option PoolsListResponse} {query : GetPoolsQueryDto}
    (hcache : Sound locale table (listQuery query) cache) :
    (getPools locale order table cache query).1.items
        = (page (listQuery query).limit ((listQuery query).page - 1)
            (listed locale table (listQuery query))).map toListItem ∧
      (getPools locale order table cache query).1.totalPages
        = pageCount (listed locale table (listQuery query)).length (listQuery query).limit := by
  rw [getPools]
  cases hcached : cache (getListCacheKey (listQuery query)) with
  | none =>
    simp only
    exact listResponse_eq hlocale hnodup horder (listQuery query)
  | some response =>
    obtain ⟨order', horder', rfl⟩ := hcache response hcached
    simp only
    exact listResponse_eq hlocale hnodup horder' (listQuery query)

variable {order : ℕ → List PoolRow → List PoolRow} {cache : ℕ → String → Option PoolsListResponse}
  {query : GetPoolsQueryDto}

include hlocale hnodup in
/-- **A client gets the sorted pools.** -/
theorem items_eq (horder : ∀ i l, (order i l).Perm l)
    (hcache : ∀ i, Sound locale table (listQuery (pageOf query i)) (cache i))
    (hlimit : 0 < (listQuery query).limit) :
    items locale order table cache query
      = (listed locale table (listQuery query)).map toListItem := by
  have hpage (i : ℕ) := getPools_eq hlocale hnodup (horder i) (hcache i)
  simp only [items, (hpage 0).2, (hpage _).1]
  show ((List.range (pageCount (listed locale table (listQuery query)).length
    (listQuery query).limit)).flatMap fun i => (page (listQuery query).limit (i + 1 - 1)
      (listed locale table (listQuery query))).map toListItem) = _
  rw [← List.map_flatMap]
  exact congrArg _ (flatMap_page_eq hlimit _)

omit hlocale hnodup in
/-- What `getPools` puts into the cache may be held there. -/
theorem sound_getPools {order : List PoolRow → List PoolRow} (horder : ∀ l, (order l).Perm l)
    {cache : String → Option PoolsListResponse} (query : GetPoolsQueryDto)
    (hcache : Sound locale table (listQuery query) cache) :
    Sound locale table (listQuery query) (getPools locale order table cache query).2 := by
  rw [getPools]
  cases hcached : cache (getListCacheKey (listQuery query)) with
  | none =>
    intro response hresponse
    simp only [Function.update_self] at hresponse
    exact ⟨order, horder, (Option.some.inj hresponse).symm⟩
  | some response => exact hcache

/-! ### What was asked for -/

/-- The number that a shown pool is sorted by. -/
def PoolListItem.metric (orderBy : PoolOrderBy) (item : PoolListItem) : ℚ :=
  match orderBy with
  | .volume => item.volume24h
  | .apr => item.feeApr
  | .tvl => item.tvl

/-- Every pool that a query asks for once, and no other, the largest metric first and those of one
metric by id. -/
def Exact (locale : Locale) (reading : Reading) (table : List PoolRow)
    (query : PoolListQuery) (items : List PoolListItem) : Prop :=
  (items.map PoolListItem.id).Perm
      ((table.filter (query.asks reading)).map PoolRow.id) ∧
    items.Pairwise fun a b => b.metric query.orderBy < a.metric query.orderBy ∨
      (a.metric query.orderBy = b.metric query.orderBy ∧ locale.localeCompare a.id b.id ≤ 0)

theorem metric_toListItem (pool : PoolSnapshot) :
    (toListItem pool).metric orderBy = pool.metric orderBy := by
  cases orderBy <;> rfl

include hlocale in
/-- The pools come in order. -/
theorem pairwise_listed (query : PoolListQuery) :
    ((listed locale table query).map toListItem).Pairwise fun a b =>
      b.metric query.orderBy < a.metric query.orderBy ∨
        (a.metric query.orderBy = b.metric query.orderBy ∧
          locale.localeCompare a.id b.id ≤ 0) := by
  refine List.pairwise_map.mpr ?_
  refine (List.pairwise_mergeSort (comes_trans hlocale) (comes_total hlocale) _).imp ?_
  intro a b hab
  rw [metric_toListItem, metric_toListItem]
  exact comes_iff.mp hab

include hnodup in
/-- A table shows the same ids for two filters if and only if they select the same rows. -/
theorem filter_ids_perm_iff {p q : PoolRow → Bool} :
    ((table.filter p).map PoolRow.id).Perm ((table.filter q).map PoolRow.id) ↔
      ∀ pool ∈ table, p pool = q pool := by
  have hselected {p q : PoolRow → Bool}
      (h : ((table.filter p).map PoolRow.id).Perm ((table.filter q).map PoolRow.id))
      {pool : PoolRow} (hpool : pool ∈ table) (hp : p pool) : q pool := by
    have hmem : pool.id ∈ (table.filter p).map PoolRow.id :=
      List.mem_map_of_mem (List.mem_filter.mpr ⟨hpool, hp⟩)
    obtain ⟨other, hother, hid⟩ := List.mem_map.mp (h.mem_iff.mp hmem)
    obtain ⟨hother, hq⟩ := List.mem_filter.mp hother
    rwa [← eq_of_id_eq hnodup hother hpool hid]
  constructor
  · intro hperm pool hpool
    exact Bool.eq_iff_iff.mpr ⟨hselected hperm hpool, hselected hperm.symm hpool⟩
  · intro hsame
    rw [List.filter_congr hsame]

/-- **A client gets what it asked for if and only if, of the pools that are active or may be
inactive, the comparison with the search finds those that match it and have the tokens that the
query names.** -/
theorem list_exact_iff (locale : Locale) (reading : Reading) (table : List PoolRow)
    (order : ℕ → List PoolRow → List PoolRow) (cache : ℕ → String → Option PoolsListResponse)
    (query : GetPoolsQueryDto) (hlocale : locale.IsCollation (table.map PoolRow.id))
    (hnodup : (table.map PoolRow.id).Nodup) (horder : ∀ i l, (order i l).Perm l)
    (hcache : ∀ i, Sound locale table (listQuery (pageOf query i)) (cache i))
    (hlimit : 0 < (listQuery query).limit) :
    Exact locale reading table (listQuery query) (items locale order table cache query) ↔
      ∀ pool ∈ table, ((listQuery query).includeInactive ∨ pool.active) →
        ((listQuery query).finds locale pool ↔ (listQuery query).matches reading pool) := by
  rw [Exact, items_eq hlocale hnodup horder hcache hlimit,
    and_iff_left (pairwise_listed hlocale (listQuery query))]
  have hids : (((listed locale table (listQuery query)).map toListItem).map PoolListItem.id).Perm
      ((table.filter ((listQuery query).accepts locale)).map PoolRow.id) := by
    have hperm := ((listed_perm locale table (listQuery query)).map toListItem).map PoolListItem.id
    rw [List.map_map (f := toSnapshot), List.map_map (f := toListItem ∘ toSnapshot)] at hperm
    exact hperm
  have hsame : (((listed locale table (listQuery query)).map toListItem).map PoolListItem.id).Perm
        ((table.filter ((listQuery query).asks reading)).map PoolRow.id) ↔
      ∀ pool ∈ table, (listQuery query).accepts locale pool = (listQuery query).asks reading pool :=
    Iff.trans ⟨hids.symm.trans, hids.trans⟩ (filter_ids_perm_iff hnodup)
  rw [hsame]
  refine forall₂_congr fun pool _ => ?_
  rw [PoolListQuery.accepts, PoolListQuery.asks, Bool.eq_iff_iff, Bool.and_eq_true,
    Bool.and_eq_true, and_congr_right_iff, Bool.or_eq_true]

end Table

/-! ### Two pools -/

/-- Texts compared by their characters, as ASCII texts are. -/
def ascii : Locale where
  toLowerCase text := String.ofList (text.toList.map Char.toLower)
  containsInsensitive text search :=
    search.toList.map Char.toLower <:+: text.toList.map Char.toLower
  localeCompare a b := if a = b then 0 else if a < b then -1 else 1

/-- Two pools with no token in common. -/
def twoPools : List PoolRow :=
  [⟨"A", "CUSDC", "CXLM", 3000, "10", "1", "2", none, true, 0⟩,
    ⟨"B", "CBTC", "CETH", 3000, "20", "1", "2", none, true, 0⟩]

/-- A search finds the addresses that contain it, and the symbols, which are the addresses without
their first letter. -/
def bySymbol : Reading where
  matchesSearch search pool :=
    ascii.containsInsensitive pool.token0Address search ||
      ascii.containsInsensitive pool.token1Address search
  sameAddress := (· == ·)

/-- A list with a filter on the first token. -/
def withToken (token0 : Option String) : GetPoolsQueryDto :=
  ⟨none, none, none, none, token0, none, none⟩

theorem ascii_le_iff {a b : String} : ascii.localeCompare a b ≤ 0 ↔ a ≤ b := by
  show (if a = b then (0 : ℤ) else if a < b then -1 else 1) ≤ 0 ↔ a ≤ b
  rcases lt_trichotomy a b with hlt | rfl | hlt
  · simp [hlt, hlt.ne, hlt.le]
  · simp
  · simp [hlt.ne', hlt.not_gt, hlt]

theorem isCollation_ascii (ids : List String) : ascii.IsCollation ids where
  total a b := by
    rw [ascii_le_iff, ascii_le_iff]
    exact le_total a b
  trans a b c := by
    rw [ascii_le_iff, ascii_le_iff, ascii_le_iff]
    exact le_trans
  eq a _ b _ := by
    rw [ascii_le_iff, ascii_le_iff]
    exact le_antisymm

theorem sound_empty (table : List PoolRow) (query : PoolListQuery) :
    Sound ascii table query fun _ => none := fun _ h => absurd h (by simp)

/-- **A client that names a token gets the pools without it too.** -/
theorem not_exact_withToken :
    ¬ Exact ascii bySymbol twoPools (listQuery (withToken (some "CUSDC")))
      (items ascii (fun _ l => l) twoPools (fun _ _ => none) (withToken (some "CUSDC"))) := by
  intro h
  have hlength := h.1.length_eq
  rw [items_eq (isCollation_ascii _) (by decide) (fun _ _ => List.Perm.refl _)
    (fun _ => sound_empty _ _) (by decide), List.length_map, List.length_map, List.length_map,
    (listed_perm ascii twoPools _).length_eq, List.length_map] at hlength
  revert hlength
  decide

theorem list_exact_iff_withToken :
    Exact ascii bySymbol twoPools (listQuery (withToken none))
        (items ascii (fun _ l => l) twoPools (fun _ _ => none) (withToken none)) ↔
      ∀ pool ∈ twoPools, ((listQuery (withToken none)).includeInactive ∨ pool.active) →
        ((listQuery (withToken none)).finds ascii pool ↔
          (listQuery (withToken none)).matches bySymbol pool) :=
  list_exact_iff ascii bySymbol twoPools (fun _ l => l) (fun _ _ => none) (withToken none)
    (isCollation_ascii _) (by decide) (fun _ _ => List.Perm.refl _) (fun _ => sound_empty _ _)
    (by decide)

end Swyft.Pools
