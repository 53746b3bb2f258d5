import Swyft.Js
import Swyft.Lib.OffsetPages

/-!
# Swaps and positions by pages

`listSwaps` of `apps/api/src/swaps/swaps.repository.ts` and `listPositionsByWallet` of
`apps/api/src/positions/positions.repository.ts` show the rows of a filter page by page. Each page
is a query of its own, sorted by one column of time; how the database orders rows with the same
time is up to each query.

Every swap and every position has a pool, which a foreign key says. In what way the database
compares two texts without regard to case is its own, and addresses are in ASCII. Prices and
values, which are computed in floating point for one row or for a page, are given.

## Main definitions

* `listSwaps`, `listPositionsByWallet` — the source functions
* `swapIds`, `positionIds` — what a client gets that goes through all pages

## Main results

* `listings_complete_iff` — when it gets every row once
-/

namespace Swyft.Listings

open OffsetPages

variable {α ω : Type}

/-! ### Tables -/

structure Pool where
  token0Address : String
  token1Address : String

structure Token where
  address : String
  symbol : String

structure SwapRow where
  id : String
  poolId : String
  senderAddress : String
  recipientAddress : String
  amount0 : String
  amount1 : String
  sqrtPriceAfter : String
  transactionHash : String
  feeAmount : String
  timestamp : ℤ
  deriving DecidableEq

structure PositionRow where
  id : String
  poolId : String
  ownerAddress : String
  tokenId : String
  lowerTick : ℤ
  upperTick : ℤ
  liquidity : String
  createdAt : ℤ
  closedAt : Option ℤ
  deriving DecidableEq

/-- The tables, with the rows of each known by their ids. -/
structure Database where
  pool : String → Pool
  tokens : List Token
  swaps : List SwapRow
  positions : List PositionRow
  swaps_nodup : (swaps.map SwapRow.id).Nodup
  positions_nodup : (positions.map PositionRow.id).Nodup

/-- `findMany` with `skip` and `take`, for the rows of a filter in the order of the query. -/
def findMany (order : List α → List α) (rows : List α) (skip take : ℕ) : List α :=
  ((order rows).drop skip).take take

/-- `toLowerCase` of an address. -/
def lowerCase (text : String) : String := String.ofList (text.toList.map Char.toLower)

/-- The trimmed text of a filter, where there is one. -/
def filterText (text : Option String) : Option String :=
  (text.map fun t => String.ofList (Js.trim t.toList)).filter (· ≠ "")

/-- `totalPages` of both services. -/
def totalPages (total limit : ℕ) : ℕ := if total = 0 then 0 else (total + limit - 1) / limit

/-! ### Symbols -/

/-- `tokenSymbolMap`, for the pools of a page: of two tokens with one address in small letters the
last one stays. -/
def Database.tokenSymbol (db : Database) (poolIds : List String) (address : String) : String :=
  let addresses := poolIds.flatMap fun id =>
    [(db.pool id).token0Address, (db.pool id).token1Address]
  let found := db.tokens.filter fun t => t.address ∈ addresses
  ((found.reverse.find? fun t => lowerCase t.address = lowerCase address).map Token.symbol).getD
    "UNKNOWN"

/-! ### Swaps -/

structure SwapSnapshot where
  id : String
  poolId : String
  token0Symbol : String
  token1Symbol : String
  amount0 : String
  amount1 : String
  priceAtSwap : String
  feeAmount : String
  txHash : String
  walletAddress : String
  timestamp : ℤ
  deriving DecidableEq

structure SwapsQuery where
  poolId : Option String
  wallet : Option String
  page : ℕ
  limit : ℕ

/-- The `where` of `listSwaps`. -/
def SwapsQuery.accepts (query : SwapsQuery) (equalsInsensitive : String → String → Bool)
    (swap : SwapRow) : Bool :=
  (filterText query.poolId).all (equalsInsensitive swap.poolId) &&
    (filterText query.wallet).all fun wallet =>
      equalsInsensitive swap.senderAddress wallet || equalsInsensitive swap.recipientAddress wallet

/-- What `listSwaps` shows of a row. -/
def SwapRow.snapshot (db : Database) (priceAtSwap : String → String) (poolIds : List String)
    (swap : SwapRow) : SwapSnapshot where
  id := swap.id
  poolId := swap.poolId
  token0Symbol := db.tokenSymbol poolIds (db.pool swap.poolId).token0Address
  token1Symbol := db.tokenSymbol poolIds (db.pool swap.poolId).token1Address
  amount0 := swap.amount0
  amount1 := swap.amount1
  priceAtSwap := priceAtSwap swap.sqrtPriceAfter
  feeAmount := swap.feeAmount
  txHash := swap.transactionHash
  walletAddress := swap.senderAddress
  timestamp := swap.timestamp

/-- `listSwaps`: the items and how many there are on all pages. -/
def listSwaps (db : Database) (equalsInsensitive : String → String → Bool)
    (priceAtSwap : String → String) (order : List SwapRow → List SwapRow) (query : SwapsQuery) :
    List SwapSnapshot × ℕ :=
  let found := db.swaps.filter (query.accepts equalsInsensitive)
  let total := found.length
  let swaps := findMany order found ((query.page - 1) * query.limit) query.limit
  if swaps.length = 0 then ([], total)
  else (swaps.map (SwapRow.snapshot db priceAtSwap (swaps.map SwapRow.poolId)), total)

/-! ### Positions -/

inductive PositionStatus where
  | active
  | closed
  deriving DecidableEq

/-- Without a status the filter is `all`. -/
abbrev PositionStatusFilter := Option PositionStatus

/-- `worth` is what is computed in floating point: the value, the fees and the price. -/
structure PositionSnapshot (ω : Type) where
  id : String
  ownerWallet : String
  poolId : String
  tokenId : String
  token0 : String
  token1 : String
  lowerTick : ℤ
  upperTick : ℤ
  liquidity : String
  createdAt : ℤ
  closedAt : Option ℤ
  status : PositionStatus
  worth : ω

structure PositionsQuery where
  status : PositionStatusFilter
  pool : Option String
  page : ℕ
  limit : ℕ

/-- The `where` of `listPositionsByWallet`. -/
def PositionsQuery.accepts (query : PositionsQuery) (equalsInsensitive : String → String → Bool)
    (walletAddress : String) (position : PositionRow) : Bool :=
  equalsInsensitive position.ownerAddress (lowerCase walletAddress) &&
    (match query.status with
      | some .active => position.closedAt.isNone
      | some .closed => position.closedAt.isSome
      | none => true) &&
    (filterText query.pool).all (equalsInsensitive position.poolId)

/-- `toSnapshots`. -/
def toSnapshots (db : Database) (worth : PositionRow → ω) (positions : List PositionRow) :
    List (PositionSnapshot ω) :=
  if positions.length = 0 then []
  else positions.map fun position =>
    { id := position.id
      ownerWallet := position.ownerAddress
      poolId := position.poolId
      tokenId := position.tokenId
      token0 := db.tokenSymbol (positions.map PositionRow.poolId)
        (db.pool position.poolId).token0Address
      token1 := db.tokenSymbol (positions.map PositionRow.poolId)
        (db.pool position.poolId).token1Address
      lowerTick := position.lowerTick
      upperTick := position.upperTick
      liquidity := position.liquidity
      createdAt := position.createdAt
      closedAt := position.closedAt
      status := if position.closedAt.isSome then .closed else .active
      worth := worth position }

/-- `listPositionsByWallet`: the items and how many there are on all pages. -/
def listPositionsByWallet (db : Database) (equalsInsensitive : String → String → Bool)
    (worth : PositionRow → ω) (order : List PositionRow → List PositionRow)
    (walletAddress : String) (query : PositionsQuery) : List (PositionSnapshot ω) × ℕ :=
  let found := db.positions.filter (query.accepts equalsInsensitive walletAddress)
  let total := found.length
  let positions := findMany order found ((query.page - 1) * query.limit) query.limit
  (toSnapshots db worth positions, total)

/-! ### Going through the pages -/

/-- The ids of the swaps that a client gets, the pages being sorted each in an order of its own. -/
def swapIds (db : Database) (equalsInsensitive : String → String → Bool)
    (priceAtSwap : String → String) (order : ℕ → List SwapRow → List SwapRow)
    (poolId wallet : Option String) (limit : ℕ) : List String :=
  let listPage (page : ℕ) :=
    listSwaps db equalsInsensitive priceAtSwap (order (page - 1)) ⟨poolId, wallet, page, limit⟩
  (List.range (totalPages (listPage 1).2 limit)).flatMap fun i =>
    (listPage (i + 1)).1.map SwapSnapshot.id

/-- The ids of the positions that a client gets. -/
def positionIds (db : Database) (equalsInsensitive : String → String → Bool)
    (worth : PositionRow → ω) (order : ℕ → List PositionRow → List PositionRow)
    (walletAddress : String) (status : PositionStatusFilter) (pool : Option String) (limit : ℕ) :
    List String :=
  let listPage (page : ℕ) :=
    listPositionsByWallet db equalsInsensitive worth (order (page - 1)) walletAddress
      ⟨status, pool, page, limit⟩
  (List.range (totalPages (listPage 1).2 limit)).flatMap fun i =>
    (listPage (i + 1)).1.map PositionSnapshot.id

/-- The swaps that a query asks for. -/
def Database.matchingSwaps (db : Database) (equalsInsensitive : String → String → Bool)
    (poolId wallet : Option String) (limit : ℕ) : List SwapRow :=
  db.swaps.filter (SwapsQuery.accepts ⟨poolId, wallet, 1, limit⟩ equalsInsensitive)

/-- The positions that a query asks for. -/
def Database.matchingPositions (db : Database) (equalsInsensitive : String → String → Bool)
    (walletAddress : String) (status : PositionStatusFilter) (pool : Option String) (limit : ℕ) :
    List PositionRow :=
  db.positions.filter
    (PositionsQuery.accepts ⟨status, pool, 1, limit⟩ equalsInsensitive walletAddress)

variable {db : Database} {equalsInsensitive : String → String → Bool}

theorem totalPages_eq (total limit : ℕ) : totalPages total limit = pageCount total limit := by
  rw [totalPages, pageCount]
  split
  case isTrue h =>
    subst h
    rcases limit.eq_zero_or_pos with rfl | hlimit
    · rfl
    · rw [Nat.div_eq_of_lt (by omega)]
  case isFalse => rfl

/-- A page of swaps shows the rows that the query found. -/
theorem map_id_listSwaps {priceAtSwap : String → String} {order : List SwapRow → List SwapRow}
    {poolId wallet : Option String} {limit i : ℕ} :
    (listSwaps db equalsInsensitive priceAtSwap order ⟨poolId, wallet, i + 1, limit⟩).1.map
        SwapSnapshot.id
      = (page limit i (order (db.matchingSwaps equalsInsensitive poolId wallet limit))).map
        SwapRow.id := by
  rw [listSwaps]
  show (ite _ _ _ : List SwapSnapshot × ℕ).1.map SwapSnapshot.id = _
  split
  case isTrue h =>
    have hnil := List.eq_nil_of_length_eq_zero h
    rw [show page limit i (order (db.matchingSwaps equalsInsensitive poolId wallet limit)) = []
      from hnil]
    rfl
  case isFalse =>
    rw [List.map_map]
    rfl

theorem listSwaps_total {priceAtSwap : String → String} {order : List SwapRow → List SwapRow}
    {poolId wallet : Option String} {p limit : ℕ} :
    (listSwaps db equalsInsensitive priceAtSwap order ⟨poolId, wallet, p, limit⟩).2
      = (db.matchingSwaps equalsInsensitive poolId wallet limit).length := by
  show (ite _ _ _ : List SwapSnapshot × ℕ).2 = _
  split <;> rfl

/-- A page of positions shows the rows that the query found. -/
theorem map_id_listPositionsByWallet {worth : PositionRow → ω}
    {order : List PositionRow → List PositionRow} {walletAddress : String}
    {status : PositionStatusFilter} {pool : Option String} {limit i : ℕ} :
    (listPositionsByWallet db equalsInsensitive worth order walletAddress
        ⟨status, pool, i + 1, limit⟩).1.map PositionSnapshot.id
      = (page limit i (order (db.matchingPositions equalsInsensitive walletAddress status pool
          limit))).map PositionRow.id := by
  show (toSnapshots db worth _).map PositionSnapshot.id = _
  rw [toSnapshots]
  split
  case isTrue h =>
    have hnil := List.eq_nil_of_length_eq_zero h
    rw [show page limit i (order (db.matchingPositions equalsInsensitive walletAddress status pool
      limit)) = [] from hnil]
    rfl
  case isFalse =>
    rw [List.map_map]
    rfl

/-- **A client that goes through all pages gets every swap, and every position, exactly once
whatever order the database chooses among rows of one time, if and only if no page ends between
two rows of one time.** -/
theorem listings_complete_iff (db : Database) (equalsInsensitive : String → String → Bool)
    (priceAtSwap : String → String) (worth : PositionRow → ω) (poolId wallet : Option String)
    (walletAddress : String) (status : PositionStatusFilter) (pool : Option String) (limit : ℕ)
    (hlimit : 0 < limit) :
    ((∀ order : ℕ → List SwapRow → List SwapRow, (∀ i, Orders SwapRow.timestamp (order i)) →
        (swapIds db equalsInsensitive priceAtSwap order poolId wallet limit).Perm
          ((db.matchingSwaps equalsInsensitive poolId wallet limit).map SwapRow.id)) ↔
      ¬ Splits SwapRow.timestamp limit
        (db.matchingSwaps equalsInsensitive poolId wallet limit)) ∧
    ((∀ order : ℕ → List PositionRow → List PositionRow,
        (∀ i, Orders PositionRow.createdAt (order i)) →
        (positionIds db equalsInsensitive worth order walletAddress status pool limit).Perm
          ((db.matchingPositions equalsInsensitive walletAddress status pool limit).map
            PositionRow.id)) ↔
      ¬ Splits PositionRow.createdAt limit
        (db.matchingPositions equalsInsensitive walletAddress status pool limit)) := by
  constructor
  · have hnodup : ((db.matchingSwaps equalsInsensitive poolId wallet limit).map SwapRow.id).Nodup :=
      db.swaps_nodup.sublist (List.filter_sublist.map _)
    simp only [swapIds, Nat.add_sub_cancel, map_id_listSwaps, listSwaps_total, totalPages_eq]
    exact complete_iff hlimit hnodup
  · have hnodup : ((db.matchingPositions equalsInsensitive walletAddress status pool limit).map
        PositionRow.id).Nodup := db.positions_nodup.sublist (List.filter_sublist.map _)
    simp only [positionIds, Nat.add_sub_cancel, map_id_listPositionsByWallet, totalPages_eq]
    exact complete_iff hlimit hnodup

/-! ### Rows of one time -/

/-- Two swaps and two positions of one pool and one time. -/
def oneLedger : Database where
  pool _ := ⟨"CUSDC", "CXLM"⟩
  tokens := [⟨"CUSDC", "USDC"⟩, ⟨"CXLM", "XLM"⟩]
  swaps := [⟨"a", "P", "G1", "G1", "1", "-1", "1", "t", "0", 0⟩,
    ⟨"b", "P", "G1", "G1", "2", "-2", "1", "t", "0", 0⟩]
  positions := [⟨"c", "P", "G1", "1", -60, 60, "10", 0, none⟩,
    ⟨"d", "P", "G1", "2", -60, 60, "20", 0, none⟩]
  swaps_nodup := by decide
  positions_nodup := by decide

/-- Rows sorted by time, those of one time in the order of the table, or in the opposite order for
the second page. -/
def alternating (time : α → ℤ) (i : ℕ) (l : List α) : List α :=
  (if i = 1 then l.reverse else l).insertionSort fun a b => time b ≤ time a

theorem orders_alternating (time : α → ℤ) (i : ℕ) : Orders time (alternating time i) := by
  intro l
  have hsorts := sorts_insertionSort time (if i = 1 then l.reverse else l)
  refine ⟨hsorts.perm.trans ?_, hsorts.pairwise⟩
  split
  case isTrue => exact List.reverse_perm l
  case isFalse => exact List.Perm.refl l

theorem swapIds_oneLedger :
    swapIds oneLedger (· == ·) id (alternating SwapRow.timestamp) none none 1 = ["a", "a"] := by
  decide

theorem positionIds_oneLedger :
    positionIds oneLedger (fun a b => lowerCase a == lowerCase b) (fun _ => ())
      (alternating PositionRow.createdAt) "G1" none none 1 = ["c", "c"] := by
  decide

/-- **A client may get a swap twice and another one not at all**, and so with positions. -/
theorem not_complete_oneLedger :
    (¬ ∀ order : ℕ → List SwapRow → List SwapRow, (∀ i, Orders SwapRow.timestamp (order i)) →
      (swapIds oneLedger (· == ·) id order none none 1).Perm
        ((oneLedger.matchingSwaps (· == ·) none none 1).map SwapRow.id)) ∧
    ¬ ∀ order : ℕ → List PositionRow → List PositionRow,
      (∀ i, Orders PositionRow.createdAt (order i)) →
      (positionIds oneLedger (fun a b => lowerCase a == lowerCase b) (fun _ => ()) order "G1" none
        none 1).Perm
        ((oneLedger.matchingPositions (fun a b => lowerCase a == lowerCase b) "G1" none none 1).map
          PositionRow.id) := by
  constructor
  · intro h
    have hperm := h _ (orders_alternating SwapRow.timestamp)
    rw [swapIds_oneLedger] at hperm
    revert hperm
    decide
  · intro h
    have hperm := h _ (orders_alternating PositionRow.createdAt)
    rw [positionIds_oneLedger] at hperm
    revert hperm
    decide

theorem listings_complete_iff_oneLedger :
    (∀ order : ℕ → List SwapRow → List SwapRow, (∀ i, Orders SwapRow.timestamp (order i)) →
        (swapIds oneLedger (· == ·) id order none none 2).Perm ["a", "b"]) ↔
      ¬ Splits SwapRow.timestamp 2 (oneLedger.matchingSwaps (· == ·) none none 2) :=
  (listings_complete_iff oneLedger (· == ·) id (fun _ => ()) none none "G1" none none 2
    (by decide)).1

end Swyft.Listings
