import Swyft.JsNumber
import Mathlib.Data.List.Sort

/-!
# The list of pools

`listActivePools` of `apps/api/src/pools/pools.repository.ts` and `getPools` of
`apps/api/src/pools/pools.service.ts`: the pools of a search, sorted in memory, one page of them,
and the response that is kept in the cache under a key made of the query.

Texts are compared by the database without regard to case and by the language in the order of its
locale; both are given, as is the lower case of a text. The metrics are stored as texts and read as
numbers; the sign of a difference of two finite numbers is exact.

## Main definitions

* `listActivePools`, `getPools`, `getListCacheKey` — the source functions
-/

namespace Swyft.Pools

open Js

/-! ### Queries -/

inductive PoolOrderBy where
  | tvl
  | volume
  | apr
  deriving DecidableEq

/-- The text of an order. -/
def PoolOrderBy.text : PoolOrderBy → String
  | tvl => "tvl"
  | volume => "volume"
  | apr => "apr"

structure GetPoolsQueryDto where
  page : Option ℕ
  limit : Option ℕ
  orderBy : Option PoolOrderBy
  search : Option String
  token0 : Option String
  token1 : Option String
  includeInactive : Option Bool

structure PoolListQuery where
  page : ℕ
  limit : ℕ
  orderBy : PoolOrderBy
  search : Option String
  token0 : Option String
  token1 : Option String
  includeInactive : Bool
  deriving DecidableEq

/-- `text?.trim() || undefined`. -/
def trimmed (text : Option String) : Option String :=
  (text.map fun t => String.ofList (trim t.toList)).filter (· ≠ "")

/-- The `listQuery` of `getPools`. -/
def listQuery (query : GetPoolsQueryDto) : PoolListQuery where
  page := query.page.getD 1
  limit := query.limit.getD 20
  orderBy := query.orderBy.getD .tvl
  search := trimmed query.search
  token0 := trimmed query.token0
  token1 := trimmed query.token1
  includeInactive := query.includeInactive = some true

/-- A number in a template. -/
def numberText (n : ℕ) : String := String.ofList (Number.finite n).toText

/-- `getListCacheKey`. -/
def getListCacheKey (query : PoolListQuery) : String :=
  ":".intercalate
    ["pools:list:v1",
      "page=" ++ numberText query.page,
      "limit=" ++ numberText query.limit,
      "orderBy=" ++ query.orderBy.text,
      "search=" ++ query.search.getD "",
      "token0=" ++ query.token0.getD "",
      "token1=" ++ query.token1.getD "",
      "includeInactive=" ++ if query.includeInactive then "true" else "false"]

/-! ### Pools -/

structure PoolRow where
  id : String
  token0Address : String
  token1Address : String
  feeTier : ℤ
  tvl : String
  volume24h : String
  feeApr : String
  currentPrice : Option String
  active : Bool
  updatedAt : ℤ
  deriving DecidableEq

structure PoolSnapshot where
  id : String
  token0 : String
  token1 : String
  feeTier : String
  tvl : ℚ
  volume24h : ℚ
  feeApr : ℚ
  currentPrice : ℚ
  active : Bool
  updatedAt : ℤ
  deriving DecidableEq

/-- `asFiniteNumber`. -/
def asFiniteNumber (value : Option String) : ℚ :=
  match parseFloat (value.getD "0") with
  | .finite q => q
  | _ => 0

/-- `toSnapshot`. -/
def toSnapshot (pool : PoolRow) : PoolSnapshot where
  id := pool.id
  token0 := pool.token0Address
  token1 := pool.token1Address
  feeTier := toString pool.feeTier
  tvl := asFiniteNumber (some pool.tvl)
  volume24h := asFiniteNumber (some pool.volume24h)
  feeApr := asFiniteNumber (some pool.feeApr)
  currentPrice := asFiniteNumber pool.currentPrice
  active := pool.active
  updatedAt := pool.updatedAt

/-- How texts are compared. -/
structure Locale where
  toLowerCase : String → String
  containsInsensitive : String → String → Bool
  localeCompare : String → String → ℤ

/-- The `OR` of the `where` of `listActivePools`. -/
def PoolListQuery.finds (locale : Locale) (query : PoolListQuery) (pool : PoolRow) : Bool :=
  let search := ((trimmed query.search).map locale.toLowerCase).filter (· ≠ "")
  search.all fun search =>
    locale.containsInsensitive pool.id search ||
      locale.containsInsensitive pool.token0Address search ||
      locale.containsInsensitive pool.token1Address search

/-- The `where` of `listActivePools`. -/
def PoolListQuery.accepts (locale : Locale) (query : PoolListQuery) (pool : PoolRow) : Bool :=
  (query.includeInactive || pool.active) && query.finds locale pool

/-- The number that pools are sorted by. -/
def PoolSnapshot.metric (orderBy : PoolOrderBy) (pool : PoolSnapshot) : ℚ :=
  match orderBy with
  | .volume => pool.volume24h
  | .apr => pool.feeApr
  | .tvl => pool.tvl

/-- The comparison of `listActivePools`, as its sign. -/
def comparePools (locale : Locale) (orderBy : PoolOrderBy) (a b : PoolSnapshot) : ℤ :=
  let primary := b.metric orderBy - a.metric orderBy
  if primary ≠ 0 then (if primary < 0 then -1 else 1) else locale.localeCompare a.id b.id

/-- `listActivePools`, the database giving the rows in an order of its own: the items and how many
there are on all pages. -/
def listActivePools (locale : Locale) (order : List PoolRow → List PoolRow)
    (table : List PoolRow) (query : PoolListQuery) : List PoolSnapshot × ℕ :=
  let pools := order (table.filter (query.accepts locale))
  let snapshots := pools.map toSnapshot
  let sorted := snapshots.mergeSort fun a b => comparePools locale query.orderBy a b ≤ 0
  let offset := (query.page - 1) * query.limit
  ((sorted.drop offset).take query.limit, snapshots.length)

/-! ### Responses -/

structure PoolListItem where
  id : String
  token0 : String
  token1 : String
  feeTier : String
  tvl : ℚ
  volume24h : ℚ
  feeApr : ℚ
  currentPrice : ℚ
  active : Bool
  deriving DecidableEq

structure PoolsListResponse where
  items : List PoolListItem
  page : ℕ
  limit : ℕ
  total : ℕ
  totalPages : ℕ
  orderBy : PoolOrderBy
  search : Option String
  deriving DecidableEq

/-- `toListItem`. -/
def toListItem (pool : PoolSnapshot) : PoolListItem where
  id := pool.id
  token0 := pool.token0
  token1 := pool.token1
  feeTier := pool.feeTier
  tvl := pool.tvl
  volume24h := pool.volume24h
  feeApr := pool.feeApr
  currentPrice := pool.currentPrice
  active := pool.active

/-- The response of `getPools` where the cache has none. -/
def listResponse (locale : Locale) (order : List PoolRow → List PoolRow) (table : List PoolRow)
    (query : PoolListQuery) : PoolsListResponse :=
  let (items, total) := listActivePools locale order table query
  { items := items.map toListItem
    page := query.page
    limit := query.limit
    total
    totalPages := (total + query.limit - 1) / query.limit
    orderBy := query.orderBy
    search := query.search }

/-- `getPools`, and what the cache holds afterwards. -/
def getPools (locale : Locale) (order : List PoolRow → List PoolRow) (table : List PoolRow)
    (cache : String → Option PoolsListResponse) (query : GetPoolsQueryDto) :
    PoolsListResponse × (String → Option PoolsListResponse) :=
  let listQuery := listQuery query
  let cacheKey := getListCacheKey listQuery
  match cache cacheKey with
  | some cached => (cached, cache)
  | none =>
    let response := listResponse locale order table listQuery
    (response, Function.update cache cacheKey (some response))

end Swyft.Pools
