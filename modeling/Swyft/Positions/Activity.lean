import Swyft.Listings

/-!
# The activity of a wallet

`listActivityByWallet` of `apps/api/src/positions/positions.repository.ts`: the newest events of
each of three kinds are fetched, merged by their times and cut to a page.

In what way the database compares two texts without regard to case is its own, and how it orders
rows of one time is up to each query. Addresses are in ASCII.

## Main results

* `listActivityByWallet_eq` — a page within the first two hundred entries is a page of the complete
  list
-/

namespace Swyft.Positions

open Listings OffsetPages

/-! ### Tables -/

/-- A row of `pool`. -/
structure Pool where
  id : String
  token0Address : String
  token1Address : String
  deriving DecidableEq

/-- A row of `position_minted` or of `position_burned`. -/
structure PositionEvent where
  eventId : String
  poolId : String
  owner : String
  amount0 : String
  amount1 : String
  createdAt : ℤ
  deriving DecidableEq

/-- A row of `fees_collected`. -/
structure FeesCollected where
  eventId : String
  poolId : String
  recipient : String
  amount0 : String
  amount1 : String
  createdAt : ℤ
  deriving DecidableEq

structure Database where
  pools : List Pool
  tokens : List Token
  positionMinted : List PositionEvent
  positionBurned : List PositionEvent
  feesCollected : List FeesCollected

/-! ### Symbols -/

structure TokenSymbols where
  token0Symbol : String
  token1Symbol : String
  deriving DecidableEq

/-- `tokenSymbolMap`, for some pools: of two tokens with one address in small letters the last one
stays. -/
def Database.tokenSymbol (db : Database) (pools : List Pool) (address : String) : String :=
  let addresses := pools.flatMap fun p => [p.token0Address, p.token1Address]
  let found := db.tokens.filter fun t => t.address ∈ addresses
  ((found.reverse.find? fun t => lowerCase t.address = lowerCase address).map Token.symbol).getD
    "UNKNOWN"

/-- `symbolsFor`, where the pools with some ids were fetched. -/
def Database.symbolsFor (db : Database) (poolIds : List String) (poolId : String) : TokenSymbols :=
  let pools := db.pools.filter fun p => p.id ∈ poolIds
  match pools.find? fun p => p.id = poolId with
  | some p => ⟨db.tokenSymbol pools p.token0Address, db.tokenSymbol pools p.token1Address⟩
  | none => ⟨"UNKNOWN", "UNKNOWN"⟩

/-! ### Entries -/

inductive ActivityType where
  | mint | burn | feeCollection
  deriving DecidableEq

structure LpActivityEntry where
  id : String
  type : ActivityType
  poolId : String
  token0Symbol : String
  token1Symbol : String
  amount0 : String
  amount1 : String
  txHash : String
  walletAddress : String
  timestamp : ℤ
  deriving DecidableEq

/-- The entry of a position that is minted or burned. -/
def PositionEvent.entry (symbolsFor : String → TokenSymbols) (type : ActivityType)
    (e : PositionEvent) : LpActivityEntry where
  id := e.eventId
  type := type
  poolId := e.poolId
  token0Symbol := (symbolsFor e.poolId).token0Symbol
  token1Symbol := (symbolsFor e.poolId).token1Symbol
  amount0 := e.amount0
  amount1 := e.amount1
  txHash := e.eventId
  walletAddress := e.owner
  timestamp := e.createdAt

/-- The entry of fees that are collected. -/
def FeesCollected.entry (symbolsFor : String → TokenSymbols) (e : FeesCollected) :
    LpActivityEntry where
  id := e.eventId
  type := .feeCollection
  poolId := e.poolId
  token0Symbol := (symbolsFor e.poolId).token0Symbol
  token1Symbol := (symbolsFor e.poolId).token1Symbol
  amount0 := e.amount0
  amount1 := e.amount1
  txHash := e.eventId
  walletAddress := e.recipient
  timestamp := e.createdAt

/-! ### The feed -/

structure LpActivityQuery where
  pool : Option String
  page : ℕ
  limit : ℕ

/-- `ACTIVITY_FETCH_LIMIT`. -/
def activityFetchLimit : ℕ := 200

/-- `where` of the three queries, for the wallet and the pool of a row. -/
def accepts (equalsInsensitive : String → String → Bool) (walletAddress : String)
    (pool : Option String) (wallet poolId : String) : Bool :=
  equalsInsensitive wallet (lowerCase walletAddress) &&
    (filterText pool).all (equalsInsensitive poolId)

/-- The events of a wallet, by kind. -/
structure Events where
  minted : List PositionEvent
  burned : List PositionEvent
  fees : List FeesCollected

/-- The events that a filter selects. -/
def Database.matching (db : Database) (equalsInsensitive : String → String → Bool)
    (walletAddress : String) (pool : Option String) : Events where
  minted := db.positionMinted.filter fun e =>
    accepts equalsInsensitive walletAddress pool e.owner e.poolId
  burned := db.positionBurned.filter fun e =>
    accepts equalsInsensitive walletAddress pool e.owner e.poolId
  fees := db.feesCollected.filter fun e =>
    accepts equalsInsensitive walletAddress pool e.recipient e.poolId

/-- How each of the three queries orders its rows. -/
structure Queries where
  minted : List PositionEvent → List PositionEvent
  burned : List PositionEvent → List PositionEvent
  fees : List FeesCollected → List FeesCollected
  orders_minted : Orders PositionEvent.createdAt minted
  orders_burned : Orders PositionEvent.createdAt burned
  orders_fees : Orders FeesCollected.createdAt fees

/-- What the queries fetch. -/
def Events.fetch (events : Events) (queries : Queries) : Events where
  minted := findMany queries.minted events.minted 0 activityFetchLimit
  burned := findMany queries.burned events.burned 0 activityFetchLimit
  fees := findMany queries.fees events.fees 0 activityFetchLimit

namespace Events

def poolIds (events : Events) : List String :=
  events.minted.map (·.poolId) ++ events.burned.map (·.poolId) ++ events.fees.map (·.poolId)

/-- The entries of all three kinds. -/
def entries (events : Events) (symbolsFor : String → TokenSymbols) : List LpActivityEntry :=
  events.minted.map (PositionEvent.entry symbolsFor .mint) ++
    events.burned.map (PositionEvent.entry symbolsFor .burn) ++
    events.fees.map (FeesCollected.entry symbolsFor)

end Events

/-- `listActivityByWallet`: the items and how many entries there are. -/
def listActivityByWallet (db : Database) (equalsInsensitive : String → String → Bool)
    (queries : Queries) (walletAddress : String) (query : LpActivityQuery) :
    List LpActivityEntry × ℕ :=
  let fetched := (db.matching equalsInsensitive walletAddress query.pool).fetch queries
  let entries := (fetched.entries (db.symbolsFor fetched.poolIds)).insertionSort
    fun a b => b.timestamp ≤ a.timestamp
  let skip := (query.page - 1) * query.limit
  ((entries.drop skip).take query.limit, entries.length)

/-! ### Exactness -/

namespace Events

/-- The creation times of the events. -/
def times (events : Events) : List ℤ :=
  events.minted.map (·.createdAt) ++ events.burned.map (·.createdAt) ++
    events.fees.map (·.createdAt)

variable {events : Events} {symbolsFor symbolsFor' : String → TokenSymbols}

theorem map_timestamp_entries : (events.entries symbolsFor).map (·.timestamp) = events.times := by
  simp only [entries, List.map_append, List.map_map]
  rfl

/-- An entry depends on the symbols for its pool only. -/
theorem entries_congr (h : ∀ id ∈ events.poolIds, symbolsFor id = symbolsFor' id) :
    events.entries symbolsFor = events.entries symbolsFor' := by
  have hminted : ∀ e ∈ events.minted, symbolsFor e.poolId = symbolsFor' e.poolId := fun e he =>
    h _ (List.mem_append_left _ (List.mem_append_left _ (List.mem_map_of_mem he)))
  have hburned : ∀ e ∈ events.burned, symbolsFor e.poolId = symbolsFor' e.poolId := fun e he =>
    h _ (List.mem_append_left _ (List.mem_append_right _ (List.mem_map_of_mem he)))
  have hfees : ∀ e ∈ events.fees, symbolsFor e.poolId = symbolsFor' e.poolId := fun e he =>
    h _ (List.mem_append_right _ (List.mem_map_of_mem he))
  refine congrArg₂ (· ++ ·) (congrArg₂ (· ++ ·) ?_ ?_) ?_
  · refine List.map_congr_left fun e he => ?_
    rw [PositionEvent.entry, hminted e he, PositionEvent.entry]
  · refine List.map_congr_left fun e he => ?_
    rw [PositionEvent.entry, hburned e he, PositionEvent.entry]
  · refine List.map_congr_left fun e he => ?_
    rw [FeesCollected.entry, hfees e he, FeesCollected.entry]

/-- The entries of each kind, as the queries order them. -/
def kinds (events : Events) (queries : Queries) (symbolsFor : String → TokenSymbols) :
    List (List LpActivityEntry) :=
  [(queries.minted events.minted).map (PositionEvent.entry symbolsFor .mint),
    (queries.burned events.burned).map (PositionEvent.entry symbolsFor .burn),
    (queries.fees events.fees).map (FeesCollected.entry symbolsFor)]

variable {queries : Queries}

theorem kinds_sorted : ∀ kind ∈ events.kinds queries symbolsFor,
    kind.Pairwise fun a b => b.timestamp ≤ a.timestamp := by
  simp only [kinds, List.forall_mem_cons]
  refine ⟨?_, ?_, ?_, nofun⟩
  · exact List.pairwise_map.mpr (queries.orders_minted events.minted).pairwise
  · exact List.pairwise_map.mpr (queries.orders_burned events.burned).pairwise
  · exact List.pairwise_map.mpr (queries.orders_fees events.fees).pairwise

theorem kinds_perm :
    (events.kinds queries symbolsFor).flatten.Perm (events.entries symbolsFor) := by
  simp only [kinds, entries, List.flatten_cons, List.flatten_nil, List.append_nil,
    List.append_assoc]
  refine .append ?_ (.append ?_ ?_)
  · exact (queries.orders_minted events.minted).perm.map _
  · exact (queries.orders_burned events.burned).perm.map _
  · exact (queries.orders_fees events.fees).perm.map _

theorem fetch_entries : (events.fetch queries).entries symbolsFor =
    (events.kinds queries symbolsFor).flatMap (List.take activityFetchLimit) := by
  simp only [fetch, findMany, List.drop_zero, entries, List.map_take, kinds, List.flatMap_cons,
    List.flatMap_nil, List.append_nil, List.append_assoc]

end Events

variable {db : Database} {equalsInsensitive : String → String → Bool} {queries : Queries}
  {walletAddress : String} {query : LpActivityQuery} {complete : List LpActivityEntry}

/-- A page is part of the entries up to its end. -/
theorem page_eq_drop_take {α : Type} {limit number : ℕ} (hnumber : 1 ≤ number) (rows : List α) :
    page limit (number - 1) rows = (rows.take (number * limit)).drop ((number - 1) * limit) := by
  obtain ⟨n, rfl⟩ := Nat.exists_eq_add_of_le' hnumber
  rw [page, Nat.add_sub_cancel, List.drop_take, Nat.succ_mul, Nat.add_sub_cancel_left]

/-- The page is one of the complete list, if its entries have the symbols that the call finds. -/
theorem items_eq_page {symbolsFor : String → TokenSymbols} (hpage : 1 ≤ query.page)
    (hwindow : query.page * query.limit ≤ activityFetchLimit)
    (hdistinct : (db.matching equalsInsensitive walletAddress query.pool).times.Nodup)
    (hsymbols : ∀ fetched : Events,
      fetched = (db.matching equalsInsensitive walletAddress query.pool).fetch queries →
        ∀ id ∈ fetched.poolIds, db.symbolsFor fetched.poolIds id = symbolsFor id)
    (hcomplete : Sorts LpActivityEntry.timestamp
      ((db.matching equalsInsensitive walletAddress query.pool).entries symbolsFor) complete) :
    (listActivityByWallet db equalsInsensitive queries walletAddress query).1 =
      page query.limit (query.page - 1) complete := by
  let events := db.matching equalsInsensitive walletAddress query.pool
  have hall : Sorts LpActivityEntry.timestamp (events.kinds queries symbolsFor).flatten complete :=
    ⟨hcomplete.perm.trans Events.kinds_perm.symm, hcomplete.pairwise⟩
  have hnodup : ((events.kinds queries symbolsFor).flatten.map (·.timestamp)).Nodup := by
    rw [(Events.kinds_perm.map _).nodup_iff, Events.map_timestamp_entries]
    exact hdistinct
  have hcut := sorts_insertionSort LpActivityEntry.timestamp
    ((events.kinds queries symbolsFor).flatMap (List.take activityFetchLimit))
  have htake := take_of_cut Events.kinds_sorted hall hcut hnodup hwindow
  rw [page_eq_drop_take hpage, ← htake, ← page_eq_drop_take hpage, ← Events.fetch_entries,
    ← Events.entries_congr (hsymbols _ rfl)]
  rfl

/-! #### Symbols that do not depend on the call -/

theorem find?_congr {α : Type} {p q : α → Bool} {l : List α} (h : ∀ a ∈ l, p a = q a) :
    l.find? p = l.find? q := by
  rw [← List.head?_filter, ← List.head?_filter, List.filter_congr h]

/-- Every address of a token or of a pool's token. -/
def Database.addresses (db : Database) : List String :=
  db.tokens.map (·.address) ++ db.pools.flatMap fun p => [p.token0Address, p.token1Address]

/-- Every address has one spelling. -/
def Database.OneSpelling (db : Database) : Prop :=
  ∀ a ∈ db.addresses, ∀ b ∈ db.addresses, lowerCase a = lowerCase b → a = b

/-- The symbol of a token of a pool that was fetched is that of the token with its address. -/
theorem tokenSymbol_eq (h : db.OneSpelling) {pools : List Pool} (hsub : pools ⊆ db.pools)
    {p : Pool} (hp : p ∈ pools) {address : String}
    (haddress : address ∈ [p.token0Address, p.token1Address]) :
    db.tokenSymbol pools address =
      ((db.tokens.reverse.find? (·.address = address)).map Token.symbol).getD "UNKNOWN" := by
  have hfetched : address ∈ pools.flatMap fun p => [p.token0Address, p.token1Address] :=
    List.mem_flatMap.mpr ⟨p, hp, haddress⟩
  have haddress' : address ∈ db.addresses :=
    List.mem_append_right _ (List.mem_flatMap.mpr ⟨p, hsub hp, haddress⟩)
  rw [Database.tokenSymbol, ← List.filter_reverse, List.find?_filter]
  refine congrArg (fun t => (Option.map Token.symbol t).getD "UNKNOWN") ?_
  refine find?_congr fun t ht => ?_
  have ht : t.address ∈ db.addresses :=
    List.mem_append_left _ (List.mem_map_of_mem (List.mem_reverse.mp ht))
  simp only [decide_eq_true_iff, decide_eq_decide]
  constructor
  · rintro ⟨-, heq⟩
    exact h _ ht _ haddress' heq
  · rintro rfl
    exact ⟨hfetched, rfl⟩

/-- The symbols for a pool that was fetched are those found among all pools. -/
theorem symbolsFor_eq (h : db.OneSpelling) {poolIds : List String} {id : String}
    (hid : id ∈ poolIds) : db.symbolsFor poolIds id = db.symbolsFor (db.pools.map (·.id)) id := by
  have hall : (db.pools.filter fun p => p.id ∈ db.pools.map (·.id)) = db.pools :=
    List.filter_eq_self.mpr fun p hp => decide_eq_true (List.mem_map_of_mem hp)
  have hfind : (db.pools.filter fun p => p.id ∈ poolIds).find? (fun p => p.id = id) =
      db.pools.find? fun p => p.id = id := by
    rw [List.find?_filter]
    refine find?_congr fun p hp => ?_
    simp only [decide_eq_true_iff, decide_eq_decide]
    exact ⟨And.right, fun heq => ⟨heq ▸ hid, heq⟩⟩
  rw [Database.symbolsFor, Database.symbolsFor, hall]
  simp only [hfind]
  cases hp : db.pools.find? fun p => p.id = id with
  | none => rfl
  | some p =>
    have hmem := List.mem_of_find?_eq_some hp
    have hfetched : p ∈ db.pools.filter fun p => p.id ∈ poolIds := by
      have hpid : p.id = id := by simpa using List.find?_some hp
      exact List.mem_filter.mpr ⟨hmem, decide_eq_true (hpid ▸ hid)⟩
    have hsub : (db.pools.filter fun p => p.id ∈ poolIds) ⊆ db.pools := List.filter_subset_self _
    simp only [tokenSymbol_eq h hsub hfetched (.head _),
      tokenSymbol_eq h hsub hfetched (.tail _ (.head _)),
      tokenSymbol_eq h (List.Subset.refl _) hmem (.head _),
      tokenSymbol_eq h (List.Subset.refl _) hmem (.tail _ (.head _))]

/-- **A page is exact**, if it ends within the first two hundred entries and the events have
creation times of their own: it is the page of the complete list of entries. Their symbols are
those that the call finds; where addresses have one spelling, these depend on the tables alone. -/
theorem listActivityByWallet_eq (db : Database) (equalsInsensitive : String → String → Bool)
    (queries : Queries) (walletAddress : String) (query : LpActivityQuery)
    (hpage : 1 ≤ query.page) (hwindow : query.page * query.limit ≤ 200)
    (hdistinct : (db.matching equalsInsensitive walletAddress query.pool).times.Nodup) :
    let matching := db.matching equalsInsensitive walletAddress query.pool
    let items := (listActivityByWallet db equalsInsensitive queries walletAddress query).1
    (∀ complete, Sorts LpActivityEntry.timestamp
        (matching.entries (db.symbolsFor (matching.fetch queries).poolIds)) complete →
      items = page query.limit (query.page - 1) complete) ∧
    (db.OneSpelling → ∀ complete, Sorts LpActivityEntry.timestamp
        (matching.entries (db.symbolsFor (db.pools.map (·.id)))) complete →
      items = page query.limit (query.page - 1) complete) := by
  refine ⟨fun complete hcomplete => ?_, fun hspelling complete hcomplete => ?_⟩
  · refine items_eq_page hpage hwindow hdistinct ?_ hcomplete
    rintro fetched rfl id -
    rfl
  · refine items_eq_page hpage hwindow hdistinct ?_ hcomplete
    rintro fetched - id hid
    exact symbolsFor_eq hspelling hid

/-- A position that is minted, one that is burned, and fees collected in between. -/
def threeEvents : Database where
  pools := [⟨"p", "CA", "CB"⟩]
  tokens := [⟨"CA", "A"⟩]
  positionMinted := [⟨"1", "p", "G", "10", "20", 1⟩]
  positionBurned := [⟨"3", "p", "G", "10", "20", 3⟩]
  feesCollected := [⟨"2", "p", "G", "1", "2", 2⟩]

def byInsertion : Queries where
  minted l := l.insertionSort fun a b => b.createdAt ≤ a.createdAt
  burned l := l.insertionSort fun a b => b.createdAt ≤ a.createdAt
  fees l := l.insertionSort fun a b => b.createdAt ≤ a.createdAt
  orders_minted := sorts_insertionSort _
  orders_burned := sorts_insertionSort _
  orders_fees := sorts_insertionSort _

/-- The second page of two entries has the one that is left. -/
theorem listActivityByWallet_eq_threeEvents :
    (listActivityByWallet threeEvents (fun a b => lowerCase a = lowerCase b) byInsertion "g"
      ⟨none, 2, 2⟩).1 = [⟨"1", .mint, "p", "A", "UNKNOWN", "10", "20", "1", "G", 1⟩] := by
  have hspelling : threeEvents.OneSpelling := by
    unfold Database.OneSpelling
    decide +kernel
  rw [(listActivityByWallet_eq threeEvents (fun a b => lowerCase a = lowerCase b) byInsertion "g"
    ⟨none, 2, 2⟩ (by decide) (by decide) (by decide +kernel)).2 hspelling _
      (sorts_insertionSort _ _)]
  decide +kernel

end Swyft.Positions
