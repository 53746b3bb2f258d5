import Swyft.Js
import Swyft.Lib.Trace
import Mathlib.Logic.Function.Basic

/-!
# The indexer's workers

`apps/api/src/indexer/indexer.worker.ts`: five queues of events, whose handlers store each event
under its identifier and project it into the tables of pools, swaps and positions.

A handler is a sequence of accesses to the database, each atomic, and between two of them any
other job may run. `Task` says what a job in progress has still to do; a state of the workers is
the database and the tasks in progress. A job that throws ends there, and the queue hands its
event out again; so may it after a job that returned.

The fee of a swap without one is computed in floating point from the amount and the pool's fee
tier. That function is the parameter `feeOf`.

## What is deliberately absent

The workers are ready and the database answers: every access below succeeds or is refused for
what it writes. Tokens, webhooks and the ledger checkpoint are other tables and services, which no
handler reads back, and rows carry no timestamps. Of a pool's row the columns that no handler
writes after creating it are left out.
-/

namespace Swyft.Indexer

/-! ### Jobs -/

structure PoolCreatedJobData where
  eventId : String
  ledger : Option ℕ
  poolId : String
  tokenA : String
  tokenB : String
  fee : String
  sqrtPriceX96 : String
  timestamp : Option String
  deriving DecidableEq

structure SwapProcessedJobData where
  eventId : String
  ledger : Option ℕ
  poolId : String
  sender : String
  recipient : String
  amount0 : String
  amount1 : String
  sqrtPriceX96 : String
  liquidity : String
  tick : Int32
  transactionHash : Option String
  feeAmount : Option String
  timestamp : Option String
  deriving DecidableEq

/-- `PositionMintedJobData` and `PositionBurnedJobData`, which have the same fields. -/
structure PositionJobData where
  eventId : String
  ledger : Option ℕ
  poolId : String
  tokenId : String
  owner : String
  tickLower : Int32
  tickUpper : Int32
  liquidity : String
  amount0 : String
  amount1 : String
  deriving DecidableEq

structure FeesCollectedJobData where
  eventId : String
  ledger : Option ℕ
  poolId : String
  recipient : String
  amount0 : String
  amount1 : String
  deriving DecidableEq

/-- An event, by the queue it comes from. -/
inductive Event where
  | poolCreated (d : PoolCreatedJobData)
  | swapProcessed (d : SwapProcessedJobData)
  | positionMinted (d : PositionJobData)
  | positionBurned (d : PositionJobData)
  | feesCollected (d : FeesCollectedJobData)
  deriving DecidableEq

inductive QueueName where
  | poolCreated | swapProcessed | positionMinted | positionBurned | feesCollected
  deriving DecidableEq

def Event.queue : Event → QueueName
  | .poolCreated _ => .poolCreated
  | .swapProcessed _ => .swapProcessed
  | .positionMinted _ => .positionMinted
  | .positionBurned _ => .positionBurned
  | .feesCollected _ => .feesCollected

def Event.eventId : Event → String
  | .poolCreated d => d.eventId
  | .swapProcessed d => d.eventId
  | .positionMinted d => d.eventId
  | .positionBurned d => d.eventId
  | .feesCollected d => d.eventId

/-- The text fields a job's data has, by name. Its numbers are never empty, and a field that is
undefined is no field of the data once a queue has stored it. -/
def Event.texts : Event → List (String × String)
  | .poolCreated d =>
    [("eventId", d.eventId), ("poolId", d.poolId), ("tokenA", d.tokenA), ("tokenB", d.tokenB),
      ("fee", d.fee), ("sqrtPriceX96", d.sqrtPriceX96)]
      ++ (d.timestamp.map fun v => ("timestamp", v)).toList
  | .swapProcessed d =>
    [("eventId", d.eventId), ("poolId", d.poolId), ("sender", d.sender),
      ("recipient", d.recipient), ("amount0", d.amount0), ("amount1", d.amount1),
      ("sqrtPriceX96", d.sqrtPriceX96), ("liquidity", d.liquidity)]
      ++ (d.transactionHash.map fun v => ("transactionHash", v)).toList
      ++ (d.feeAmount.map fun v => ("feeAmount", v)).toList
      ++ (d.timestamp.map fun v => ("timestamp", v)).toList
  | .positionMinted d | .positionBurned d =>
    [("eventId", d.eventId), ("poolId", d.poolId), ("tokenId", d.tokenId), ("owner", d.owner),
      ("liquidity", d.liquidity), ("amount0", d.amount0), ("amount1", d.amount1)]
  | .feesCollected d =>
    [("eventId", d.eventId), ("poolId", d.poolId), ("recipient", d.recipient),
      ("amount0", d.amount0), ("amount1", d.amount1)]

/-- The names of the empty fields, as `guardEmptyData` lists them. -/
def Event.emptyFields (e : Event) : List String := (e.texts.filter (·.2 = "")).map (·.1)

/-- `guardEmptyData`. -/
def guardEmptyData (e : Event) : Bool := e.emptyFields.isEmpty

/-! ### Tables -/

structure PoolRow where
  token0Address : String
  token1Address : String
  feeTier : ℤ
  currentSqrtPrice : String
  currentTick : Int32
  liquidity : String
  deriving DecidableEq

structure SwapRow where
  poolId : String
  senderAddress : String
  recipientAddress : String
  amount0 : String
  amount1 : String
  sqrtPriceAfter : String
  tickAfter : Int32
  transactionHash : String
  feeAmount : String
  deriving DecidableEq

structure PositionRow where
  ownerAddress : String
  lowerTick : Int32
  upperTick : Int32
  liquidity : String
  closed : Bool
  deriving DecidableEq

/-- The tables, each by its unique key: raw events by queue and event, pools by identifier, swaps
by event, positions by pool and token. A swap or a position refers to a row of the pools. -/
structure Tables where
  events : QueueName → String → Option Event
  pools : String → Option PoolRow
  swaps : String → Option SwapRow
  positions : String × String → Option PositionRow

def Tables.empty : Tables where
  events := fun _ _ => none
  pools := fun _ => none
  swaps := fun _ => none
  positions := fun _ => none

/-! ### Accesses to the database -/

/-- The first upsert of every handler: the raw event, unless it is there. -/
def Tables.storeEvent (t : Tables) (e : Event) : Tables :=
  match t.events e.queue e.eventId with
  | some _ => t
  | none =>
    { t with
      events := Function.update t.events e.queue
        (Function.update (t.events e.queue) e.eventId (some e)) }

/-- `UNKNOWN_TOKEN_ADDRESS`. -/
def unknownTokenAddress : String := "unknown"

/-- `parseInt(d.fee, 10)` as the value of an integer column, which refuses what is no 32-bit
number. -/
def feeColumn (fee : String) : Option ℤ :=
  (Js.parseInt10 fee).filter fun n => -2 ^ 31 ≤ n ∧ n < 2 ^ 31

/-- The update and the create branch of `projectPoolCreated`'s upsert. -/
def createdRow (d : PoolCreatedJobData) (feeTier : ℤ) : Option PoolRow → PoolRow
  | some row =>
    { row with
      token0Address := d.tokenA
      token1Address := d.tokenB
      feeTier
      currentSqrtPrice := d.sqrtPriceX96 }
  | none =>
    { token0Address := d.tokenA
      token1Address := d.tokenB
      feeTier
      currentSqrtPrice := d.sqrtPriceX96
      currentTick := 0
      liquidity := "0" }

/-- `projectPoolCreated`. An upsert that is refused is caught and logged. -/
def projectPoolCreated (t : Tables) (d : PoolCreatedJobData) : Tables :=
  match feeColumn d.fee with
  | none => t
  | some feeTier =>
    { t with
      pools := Function.update t.pools d.poolId
        (some (createdRow d feeTier (t.pools d.poolId))) }

/-- `PoolsRepository.isValidSqrtPrice`, or nothing where it throws. -/
def isValidSqrtPrice (value : String) : Option Bool :=
  if Js.trim value.toList = [] then some false
  else (Js.bigInt value).map fun n => decide (0 < n)

/-- The fee of a swap that comes without one, from the pool as it stands. -/
def derivedFee (feeOf : String → ℤ → String) (t : Tables) (d : SwapProcessedJobData) : String :=
  match t.pools d.poolId with
  | some pool => feeOf d.amount0 pool.feeTier
  | none => "0"

/-- `resolveFeeAmount`. -/
def resolveFeeAmount (feeOf : String → ℤ → String) (t : Tables) (d : SwapProcessedJobData) :
    String :=
  match d.feeAmount with
  | some fee => if fee ≠ "" then fee else derivedFee feeOf t d
  | none => derivedFee feeOf t d

/-- The update and the create branch of `projectSwapProcessed`'s pool upsert. -/
def stateRow (d : SwapProcessedJobData) : Option PoolRow → PoolRow
  | some row =>
    { row with
      currentSqrtPrice := d.sqrtPriceX96
      currentTick := d.tick
      liquidity := d.liquidity }
  | none =>
    { token0Address := unknownTokenAddress
      token1Address := unknownTokenAddress
      feeTier := 0
      currentSqrtPrice := d.sqrtPriceX96
      currentTick := d.tick
      liquidity := d.liquidity }

/-- The pool upsert of `projectSwapProcessed`. -/
def upsertPoolState (t : Tables) (d : SwapProcessedJobData) : Tables :=
  { t with
    pools := Function.update t.pools d.poolId (some (stateRow d (t.pools d.poolId))) }

/-- The row of a swap. -/
def swapRow (d : SwapProcessedJobData) (feeAmount : String) : SwapRow where
  poolId := d.poolId
  senderAddress := d.sender
  recipientAddress := d.recipient
  amount0 := d.amount0
  amount1 := d.amount1
  sqrtPriceAfter := d.sqrtPriceX96
  tickAfter := d.tick
  transactionHash := d.transactionHash.getD d.eventId
  feeAmount

/-- The swap upsert of `projectSwapProcessed`. A row that is there stays; a new one is refused
without its pool, which is caught and logged. -/
def upsertSwap (t : Tables) (d : SwapProcessedJobData) (feeAmount : String) : Tables :=
  match t.swaps d.eventId, t.pools d.poolId with
  | some _, _ => t
  | none, none => t
  | none, some _ =>
    { t with swaps := Function.update t.swaps d.eventId (some (swapRow d feeAmount)) }

/-- The update and the create branch of the position upserts; `closes` where the branch sets
`closedAt`. -/
def positionRow (d : PositionJobData) (closes : Bool) : Option PositionRow → PositionRow
  | some row => { row with liquidity := d.liquidity, closed := row.closed || closes }
  | none =>
    { ownerAddress := d.owner
      lowerTick := d.tickLower
      upperTick := d.tickUpper
      liquidity := d.liquidity
      closed := closes }

/-- The position upsert of `handlePositionMinted` and `handlePositionBurned`. A new row is refused
without its pool, and the handler throws. -/
def upsertPosition (t : Tables) (d : PositionJobData) (closes : Bool) : Tables :=
  match t.positions (d.poolId, d.tokenId), t.pools d.poolId with
  | none, none => t
  | row, _ =>
    { t with
      positions := Function.update t.positions (d.poolId, d.tokenId)
        (some (positionRow d closes row)) }

/-! ### What an access leaves alone -/

section Frame

variable {t : Tables}

theorem storeEvent_same (t : Tables) (e : Event) :
    (t.storeEvent e).pools = t.pools ∧ (t.storeEvent e).swaps = t.swaps ∧
      (t.storeEvent e).positions = t.positions := by
  simp only [Tables.storeEvent]
  split <;> exact ⟨rfl, rfl, rfl⟩

theorem upsertSwap_same (t : Tables) (d : SwapProcessedJobData) (feeAmount : String) :
    (upsertSwap t d feeAmount).pools = t.pools ∧
      (upsertSwap t d feeAmount).positions = t.positions ∧
      (upsertSwap t d feeAmount).events = t.events := by
  simp only [upsertSwap]
  split <;> exact ⟨rfl, rfl, rfl⟩

theorem upsertSwap_of_ne {d : SwapProcessedJobData} {id : String} (h : d.eventId ≠ id)
    (feeAmount : String) : (upsertSwap t d feeAmount).swaps id = t.swaps id := by
  simp only [upsertSwap]
  split
  · rfl
  · rfl
  · exact Function.update_of_ne h.symm _ _

theorem upsertPosition_same (t : Tables) (d : PositionJobData) (closes : Bool) :
    (upsertPosition t d closes).pools = t.pools ∧ (upsertPosition t d closes).swaps = t.swaps ∧
      (upsertPosition t d closes).events = t.events := by
  simp only [upsertPosition]
  split <;> exact ⟨rfl, rfl, rfl⟩

theorem upsertPosition_of_ne {d : PositionJobData} {k : String × String}
    (h : (d.poolId, d.tokenId) ≠ k) (closes : Bool) :
    (upsertPosition t d closes).positions k = t.positions k := by
  simp only [upsertPosition]
  split
  · rfl
  · exact Function.update_of_ne h.symm _ _

end Frame

/-! ### Jobs in progress -/

/-- What a job has still to do. -/
inductive Task where
  /-- Store the raw event, then go on. -/
  | write (e : Event)
  /-- Project the event. For a swap this is the reading of the fee. -/
  | project (e : Event)
  /-- Upsert the pool of a swap, then go on. -/
  | storeState (d : SwapProcessedJobData) (feeAmount : String)
  /-- Upsert the row of a swap. -/
  | storeSwap (d : SwapProcessedJobData) (feeAmount : String)
  deriving DecidableEq

/-- What a handler begins with. Malformed data are skipped. -/
def start (e : Event) : List Task := if guardEmptyData e then [.write e] else []

/-- The next access of a job, and what is left of the job then. -/
def advance (feeOf : String → ℤ → String) (t : Tables) : Task → Tables × List Task
  | .write e => (t.storeEvent e, [.project e])
  | .project (.poolCreated d) => (projectPoolCreated t d, [])
  | .project (.swapProcessed d) =>
    let feeAmount := resolveFeeAmount feeOf t d
    match isValidSqrtPrice d.sqrtPriceX96 with
    | none => (t, [])
    | some false => (t, [.storeSwap d feeAmount])
    | some true => (t, [.storeState d feeAmount])
  | .project (.positionMinted d) => (upsertPosition t d false, [])
  | .project (.positionBurned d) => (upsertPosition t d (d.liquidity = "0"), [])
  | .project (.feesCollected _) => (t, [])
  | .storeState d feeAmount => (upsertPoolState t d, [.storeSwap d feeAmount])
  | .storeSwap d feeAmount => (upsertSwap t d feeAmount, [])

/-- The database and the jobs in progress. -/
structure Workers where
  db : Tables
  active : List Task

/-- One step of the workers, labelled with the event it hands out, if it hands one out. -/
inductive Step (feeOf : String → ℤ → String) : Workers → Option Event → Workers → Prop
  /-- A worker takes up a job. -/
  | deliver (s : Workers) (e : Event) :
      Step feeOf s (some e) { s with active := start e ++ s.active }
  /-- Some job in progress makes its next access. -/
  | advance (db : Tables) (before after : List Task) (k : Task) :
      Step feeOf ⟨db, before ++ k :: after⟩ none
        ⟨(advance feeOf db k).1, before ++ (advance feeOf db k).2 ++ after⟩

/-- The database `t` is left when exactly the events of `events` have been handed out, each once
at least, in any order and any number of them at a time, and no job is in progress any more. -/
def Delivery (feeOf : String → ℤ → String) (events : List Event) (t : Tables) : Prop :=
  ∃ ls, Trace (Step feeOf) ⟨.empty, []⟩ ls ⟨t, []⟩ ∧ ∀ e, some e ∈ ls ↔ e ∈ events

/-- What a position's row says about the position. -/
def PositionRow.status (r : PositionRow) : String × Bool := (r.liquidity, r.closed)

/-- The same rows of pools and of swaps, and the same positions with the same status. -/
def SameRows (t t' : Tables) : Prop :=
  t.pools = t'.pools ∧ t.swaps = t'.swaps ∧
    ∀ k, (t.positions k).map PositionRow.status = (t'.positions k).map PositionRow.status

/-- Any two deliveries of the events leave the same rows. -/
def Converges (feeOf : String → ℤ → String) (events : List Event) : Prop :=
  ∀ t t', Delivery feeOf events t → Delivery feeOf events t' → SameRows t t'

end Swyft.Indexer
