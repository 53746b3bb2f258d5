import Swyft.Indexer.Acknowledge
import Mathlib.Data.List.Infix

/-!
# Replay

`apps/api/src/indexer/indexer-replay.service.ts` rebuilds jobs from the rows of the raw events.
Those rows have no column for a swap's transaction hash and fee, nor for an event's timestamp, so
a rebuilt job comes without them, and its handler falls back to the event's identifier, to a fee
derived from the pool, and to the time at which it runs.

Rows carry the timestamp of the event they were created for here, or none where they were created
with the time of processing; one time of processing counts as the same as another.

The events are handled one after the other, without failures, and the rebuilt jobs in the same
order: what else another order changes is not a matter of replay.

## Main definitions

* `rawRow`, `RawRow.job` — what is stored of an event, and the job rebuilt from it
* `handleRow`, `handleAll` — the rows with their timestamps
* `Lossless` — the event creates no row from what is not stored

## Main results

* `job_accepted` — a rebuilt job passes `guardEmptyData`
* `replay_reproduces_iff` — when replay brings the rows back
-/

namespace Swyft.Indexer

variable {feeOf : String → ℤ → String} {validDate : String → Bool}

/-! ### Rows of raw events -/

structure PoolCreatedRow where
  eventId : String
  poolId : String
  tokenA : String
  tokenB : String
  fee : String
  sqrtPriceX96 : String
  ledger : Option ℕ
  deriving DecidableEq

structure SwapProcessedRow where
  eventId : String
  poolId : String
  sender : String
  recipient : String
  amount0 : String
  amount1 : String
  sqrtPriceX96 : String
  liquidity : String
  tick : Int32
  ledger : Option ℕ
  deriving DecidableEq

/-- A row of `PositionMinted` or `PositionBurned`. -/
structure PositionEventRow where
  eventId : String
  poolId : String
  tokenId : Option String
  owner : String
  tickLower : Int32
  tickUpper : Int32
  liquidity : String
  amount0 : String
  amount1 : String
  ledger : Option ℕ
  deriving DecidableEq

structure FeesCollectedRow where
  eventId : String
  poolId : String
  recipient : String
  amount0 : String
  amount1 : String
  ledger : Option ℕ
  deriving DecidableEq

inductive RawRow where
  | poolCreated (row : PoolCreatedRow)
  | swapProcessed (row : SwapProcessedRow)
  | positionMinted (row : PositionEventRow)
  | positionBurned (row : PositionEventRow)
  | feesCollected (row : FeesCollectedRow)
  deriving DecidableEq

def positionEventRow (d : PositionJobData) : PositionEventRow where
  eventId := d.eventId
  poolId := d.poolId
  tokenId := if d.tokenId = "" then none else some d.tokenId
  owner := d.owner
  tickLower := d.tickLower
  tickUpper := d.tickUpper
  liquidity := d.liquidity
  amount0 := d.amount0
  amount1 := d.amount1
  ledger := d.ledger

/-- The `create` of the first upsert of an event's handler. -/
def rawRow : Event → RawRow
  | .poolCreated d =>
    .poolCreated ⟨d.eventId, d.poolId, d.tokenA, d.tokenB, d.fee, d.sqrtPriceX96, d.ledger⟩
  | .swapProcessed d =>
    .swapProcessed ⟨d.eventId, d.poolId, d.sender, d.recipient, d.amount0, d.amount1,
      d.sqrtPriceX96, d.liquidity, d.tick, d.ledger⟩
  | .positionMinted d => .positionMinted (positionEventRow d)
  | .positionBurned d => .positionBurned (positionEventRow d)
  | .feesCollected d =>
    .feesCollected ⟨d.eventId, d.poolId, d.recipient, d.amount0, d.amount1, d.ledger⟩

/-- `replayPositionMinted` and `replayPositionBurned`, of one row. -/
def PositionEventRow.job (row : PositionEventRow) : PositionJobData where
  eventId := row.eventId
  ledger := row.ledger
  poolId := row.poolId
  tokenId := row.tokenId.getD ""
  owner := row.owner
  tickLower := row.tickLower
  tickUpper := row.tickUpper
  liquidity := row.liquidity
  amount0 := row.amount0
  amount1 := row.amount1

/-- `replayPoolCreated` to `replayFeesCollected`, of one row. -/
def RawRow.job : RawRow → Event
  | .poolCreated row =>
    .poolCreated
      { eventId := row.eventId
        ledger := row.ledger
        poolId := row.poolId
        tokenA := row.tokenA
        tokenB := row.tokenB
        fee := row.fee
        sqrtPriceX96 := row.sqrtPriceX96
        timestamp := none }
  | .swapProcessed row =>
    .swapProcessed
      { eventId := row.eventId
        ledger := row.ledger
        poolId := row.poolId
        sender := row.sender
        recipient := row.recipient
        amount0 := row.amount0
        amount1 := row.amount1
        sqrtPriceX96 := row.sqrtPriceX96
        liquidity := row.liquidity
        tick := row.tick
        transactionHash := none
        feeAmount := none
        timestamp := none }
  | .positionMinted row => .positionMinted row.job
  | .positionBurned row => .positionBurned row.job
  | .feesCollected row =>
    .feesCollected ⟨row.eventId, row.ledger, row.poolId, row.recipient, row.amount0, row.amount1⟩

/-- `runReplayFromLedger`: the jobs rebuilt of those of some events that are stored with a ledger
from `fromLedger` on. -/
def replayJobs (fromLedger : ℕ) (t : Tables) (events : List Event) : List Event :=
  events.filterMap fun e =>
    ((t.events e.queue e.eventId).filter fun stored =>
      stored.ledger.any fun ledger => fromLedger ≤ ledger).map fun stored => (rawRow stored).job

/-! ### Rows with their timestamps -/

/-- The tables with the timestamps that the rows of pools and swaps were created with. -/
structure Rows where
  db : Tables
  createdAt : String → Option String
  timestamp : String → Option String

def Rows.empty : Rows := ⟨.empty, fun _ => none, fun _ => none⟩

/-- The timestamp of a pool's row if the event creates it: a placeholder has the time of
processing. -/
def Event.poolTimestamp : Event → Option String
  | .poolCreated d => d.timestamp
  | _ => none

/-- The tables after an event is handled and nothing fails. -/
def handledTables (feeOf : String → ℤ → String) (validDate : String → Bool) (t : Tables)
    (e : Event) : Tables :=
  (handler feeOf validDate (fun _ => .served) true ⟨t, ⟨none, none⟩⟩ e).1.db

/-- The timestamps of the rows of a table, those that are new having `timestamp`. -/
def stamped {ν : Type} (rows rows' : String → Option ν) (timestamp : Option String)
    (old : String → Option String) (k : String) : Option String :=
  if (rows k).isNone ∧ (rows' k).isSome then timestamp else old k

/-- The rows after an event is handled. -/
def handleRow (feeOf : String → ℤ → String) (validDate : String → Bool) (r : Rows) (e : Event) :
    Rows :=
  let db := handledTables feeOf validDate r.db e
  { db
    createdAt := stamped r.db.pools db.pools e.poolTimestamp r.createdAt
    timestamp := stamped r.db.swaps db.swaps e.timestamp r.timestamp }

/-- Events handled one after the other. -/
def handleAll (feeOf : String → ℤ → String) (validDate : String → Bool) (r : Rows)
    (events : List Event) : Rows :=
  events.foldl (handleRow feeOf validDate) r

/-- The same rows of pools, positions and swaps, with the same timestamps. -/
structure Rows.Same (r r' : Rows) : Prop where
  pools : r.db.pools = r'.db.pools
  swaps : r.db.swaps = r'.db.swaps
  positions : r.db.positions = r'.db.positions
  createdAt : r.createdAt = r'.createdAt
  timestamp : r.timestamp = r'.timestamp

/-- The raw events of a database whose other tables are empty. -/
def Tables.rawOnly (t : Tables) : Tables := { Tables.empty with events := t.events }

/-- A swap whose handler creates its row if nothing is wrong with its timestamp. -/
def CreatesSwap (t : Tables) (d : SwapProcessedJobData) : Prop :=
  t.swaps d.eventId = none ∧
    (isValidSqrtPrice d.sqrtPriceX96 = some true ∨
      isValidSqrtPrice d.sqrtPriceX96 = some false ∧ (t.pools d.poolId).isSome)

instance decidableCreatesSwap (t : Tables) (d : SwapProcessedJobData) :
    Decidable (CreatesSwap t d) :=
  inferInstanceAs (Decidable (t.swaps d.eventId = none ∧
    (isValidSqrtPrice d.sqrtPriceX96 = some true ∨
      isValidSqrtPrice d.sqrtPriceX96 = some false ∧ (t.pools d.poolId).isSome = true)))

/-- What is not stored of an event makes no difference to the rows. -/
def Lossless (feeOf : String → ℤ → String) (validDate : String → Bool) (t : Tables) : Event → Prop
  | .poolCreated d =>
    (feeColumn d.fee).isSome → ∀ timestamp ∈ d.timestamp, (t.pools d.poolId).isSome ∧
      (validDate timestamp = true ∨ ∀ f ∈ createdFacts d, Holds t f)
  | .swapProcessed d =>
    CreatesSwap t d → d.timestamp = none ∧ d.transactionHash.getD d.eventId = d.eventId ∧
      resolveFeeAmount feeOf t d = derivedFee feeOf t d
  | .positionMinted _ | .positionBurned _ | .feesCollected _ => True

/-- Along a run no event creates a row from what is not stored. -/
def LosslessAlong (feeOf : String → ℤ → String) (validDate : String → Bool) :
    Rows → List Event → Prop
  | _, [] => True
  | r, e :: es =>
    Lossless feeOf validDate r.db e ∧
      LosslessAlong feeOf validDate (handleRow feeOf validDate r e) es

/-! ### Rebuilt jobs -/

theorem positionEventRow_job {d : PositionJobData} (h : d.tokenId ≠ "") :
    (positionEventRow d).job = d := by
  simp [positionEventRow, PositionEventRow.job, h]

/-- An accepted job of a type other than the first two is rebuilt as it was. -/
theorem job_eq {e : Event} (h : guardEmptyData e = true) (hpool : ∀ d, e ≠ .poolCreated d)
    (hswap : ∀ d, e ≠ .swapProcessed d) : (rawRow e).job = e := by
  rw [guardEmptyData_iff] at h
  cases e with
  | poolCreated d => exact absurd rfl (hpool d)
  | swapProcessed d => exact absurd rfl (hswap d)
  | positionMinted d =>
    have htokenId := h ("tokenId", d.tokenId) (by simp [Event.texts])
    exact congrArg Event.positionMinted (positionEventRow_job htokenId)
  | positionBurned d =>
    have htokenId := h ("tokenId", d.tokenId) (by simp [Event.texts])
    exact congrArg Event.positionBurned (positionEventRow_job htokenId)
  | feesCollected d => rfl

/-- **A rebuilt job is accepted again.** -/
theorem job_accepted {e : Event} (h : guardEmptyData e = true) :
    guardEmptyData (rawRow e).job = true := by
  cases e with
  | poolCreated d =>
    rw [guardEmptyData_iff] at h ⊢
    intro x hx
    refine h x (List.mem_append_left _ ?_)
    simpa [rawRow, RawRow.job, Event.texts] using hx
  | swapProcessed d =>
    rw [guardEmptyData_iff] at h ⊢
    intro x hx
    refine h x ?_
    simp only [rawRow, RawRow.job, Event.texts] at hx ⊢
    simp only [List.mem_append]
    exact .inl (.inl (.inl (by simpa using hx)))
  | positionMinted d | positionBurned d | feesCollected d =>
    rwa [job_eq h (by simp) (by simp)]

/-! ### Stored events -/

theorem projectDated_events (t : Tables) (e : Event) :
    (projectDated feeOf validDate t e).events = t.events := by
  cases e with
  | poolCreated d =>
    simp only [projectDated, projectPoolCreated]
    split
    · rfl
    · split <;> rfl
  | swapProcessed d =>
    simp only [projectDated]
    split
    · rfl
    · split
      · rfl
      · exact (upsertSwap_same _ _ _).2.2
    · split
      · rfl
      · exact (upsertSwap_same _ _ _).2.2
  | positionMinted d | positionBurned d => exact (upsertPosition_same t d _).2.2
  | feesCollected d => rfl

/-- An event that is accepted and whose raw event can be stored. -/
def Storable (e : Event) : Prop :=
  guardEmptyData e = true ∧ ∀ ledger ∈ e.ledger, ledger < 2 ^ 31

instance decidableStorable (e : Event) : Decidable (Storable e) :=
  inferInstanceAs (Decidable (guardEmptyData e = true ∧ ∀ ledger ∈ e.ledger, ledger < 2 ^ 31))

theorem handledTables_eq {t : Tables} {e : Event} (h : Storable e) :
    handledTables feeOf validDate t e = projectDated feeOf validDate (t.storeEvent e) e :=
  handler_served (fun _ => rfl) h.2 h.1

/-- The queue and the identifier an event is stored under. -/
def Event.key (e : Event) : QueueName × String := (e.queue, e.eventId)

theorem storeEvent_events (t : Tables) (e x : Event) :
    (t.storeEvent e).events x.queue x.eventId =
      if x.key = e.key then some ((t.events x.queue x.eventId).getD e)
      else t.events x.queue x.eventId := by
  by_cases hkey : x.key = e.key
  · obtain ⟨hq, hid⟩ := Prod.mk.inj hkey
    rw [if_pos hkey, hq, hid]
    cases hstored : t.events e.queue e.eventId <;> simp [Tables.storeEvent, hstored]
  · rw [if_neg hkey]
    simp only [Tables.storeEvent]
    split
    · rfl
    · by_cases hq : x.queue = e.queue
      · have hid : x.eventId ≠ e.eventId := fun hid => hkey (Prod.ext hq hid)
        simp [hq, hid]
      · simp [hq]

/-- After a run of distinct events each is stored. -/
theorem handleAll_stored {es : List Event} (h : ∀ e ∈ es, Storable e)
    (hkeys : (es.map Event.key).Nodup) {r : Rows} {x : Event}
    (hx : r.db.events x.queue x.eventId = some x ∨
      x ∈ es ∧ r.db.events x.queue x.eventId = none) :
    (handleAll feeOf validDate r es).db.events x.queue x.eventId = some x := by
  induction es generalizing r with
  | nil =>
    rcases hx with hx | hx
    · exact hx
    · cases hx.1
  | cons e es ih =>
    obtain ⟨he, hes⟩ := List.forall_mem_cons.mp h
    obtain ⟨hfresh, hkeys⟩ := List.nodup_cons.mp hkeys
    have hevents : (handleRow feeOf validDate r e).db.events x.queue x.eventId =
        if x.key = e.key then some ((r.db.events x.queue x.eventId).getD e)
        else r.db.events x.queue x.eventId := by
      rw [← storeEvent_events, handleRow, handledTables_eq he, projectDated_events]
    refine ih hes hkeys ?_
    rw [hevents]
    rcases hx with hx | ⟨hmem, hnew⟩
    · left
      rw [hx]
      split <;> rfl
    · rcases List.mem_cons.mp hmem with rfl | hmem
      · left
        rw [if_pos rfl, hnew]
        rfl
      · have hkey : x.key ≠ e.key := fun hkey => hfresh (hkey ▸ List.mem_map_of_mem hmem)
        rw [if_neg hkey]
        exact .inr ⟨hmem, hnew⟩

/-! ### Timestamps -/

section Stamped

variable {ν : Type} {rows : String → Option ν} {timestamp : Option String}
  {old : String → Option String} {k : String} {v : ν}

theorem stamped_self : stamped rows rows timestamp old = old := by
  funext k
  cases h : rows k <;> simp [stamped, h]

theorem stamped_old (h : (rows k).isSome) :
    stamped rows (Function.update rows k (some v)) timestamp old = old := by
  funext k'
  by_cases hk : k' = k
  · subst hk
    simp [stamped, Option.isSome_iff_ne_none.mp h]
  · cases h' : rows k' <;> simp [stamped, hk, h']

theorem stamped_new (h : rows k = none) :
    stamped rows (Function.update rows k (some v)) timestamp old
      = Function.update old k timestamp := by
  funext k'
  by_cases hk : k' = k
  · subst hk
    simp [stamped, h]
  · cases h' : rows k' <;> simp [stamped, hk, h']

theorem stamped_update_iff {timestamp' : Option String} :
    stamped rows (Function.update rows k (some v)) timestamp old
        = stamped rows (Function.update rows k (some v)) timestamp' old ↔
      (rows k).isSome ∨ timestamp = timestamp' := by
  cases h : rows k with
  | none =>
    rw [stamped_new h, stamped_new h]
    simpa using (Function.update_injective old k).eq_iff
  | some _ =>
    rw [stamped_old (by simp [h]), stamped_old (by simp [h])]
    simp

end Stamped

/-! ### One event and its rebuilt job -/

theorem storable_job {e : Event} (h : Storable e) : Storable (rawRow e).job := by
  refine ⟨job_accepted h.1, ?_⟩
  cases e <;> exact h.2

/-- The tables after a pool is created, and after it is from the rebuilt job. -/
theorem poolCreated_says_iff {t : Tables} {d : PoolCreatedJobData} {fee : ℤ}
    (hfee : feeColumn d.fee = some fee) :
    t.pools d.poolId = some (createdRow d fee (t.pools d.poolId)) ↔
      (t.pools d.poolId).isSome ∧ ∀ f ∈ createdFacts d, Holds t f := by
  simp only [createdFacts, hfee, List.forall_mem_cons, Holds, Fact.poolId]
  cases hrow : t.pools d.poolId with
  | none => simp
  | some row =>
    obtain ⟨token0, token1, feeTier, price, tick, liquidity⟩ := row
    simp [createdRow, PoolRow.Says]
    tauto

theorem same_handleRow {r r' : Rows} {e e' : Event} (he : Storable e) (he' : Storable e')
    (hstamps : r.createdAt = r'.createdAt ∧ r.timestamp = r'.timestamp) :
    (handleRow feeOf validDate r e).Same (handleRow feeOf validDate r' e') ↔
      let db := projectDated feeOf validDate (r.db.storeEvent e) e
      let db' := projectDated feeOf validDate (r'.db.storeEvent e') e'
      (db.pools = db'.pools ∧ stamped r.db.pools db.pools e.poolTimestamp r.createdAt
        = stamped r'.db.pools db'.pools e'.poolTimestamp r.createdAt) ∧
      (db.swaps = db'.swaps ∧ stamped r.db.swaps db.swaps e.timestamp r.timestamp
        = stamped r'.db.swaps db'.swaps e'.timestamp r.timestamp) ∧
      db.positions = db'.positions := by
  simp only [handleRow, handledTables_eq he, handledTables_eq he', hstamps.1, hstamps.2]
  exact ⟨fun h => ⟨⟨h.pools, h.createdAt⟩, ⟨h.swaps, h.timestamp⟩, h.positions⟩,
    fun ⟨⟨h₁, h₂⟩, ⟨h₃, h₄⟩, h₅⟩ => ⟨h₁, h₃, h₅, h₂, h₄⟩⟩

/-- The pools after a pool is created. -/
def createdPools (validDate : String → Bool) (pools : String → Option PoolRow)
    (d : PoolCreatedJobData) : String → Option PoolRow :=
  match feeColumn d.fee with
  | none => pools
  | some fee =>
    if badDate validDate d.timestamp then pools
    else Function.update pools d.poolId (some (createdRow d fee (pools d.poolId)))

theorem projectDated_poolCreated (t : Tables) (e : Event) (d : PoolCreatedJobData) :
    let db := projectDated feeOf validDate (t.storeEvent e) (.poolCreated d)
    db.pools = createdPools validDate t.pools d ∧ db.swaps = t.swaps ∧
      db.positions = t.positions := by
  obtain ⟨hpools, hswaps, hpositions⟩ := storeEvent_same t e
  simp only [projectDated, projectPoolCreated, createdPools]
  cases badDate validDate d.timestamp with
  | true => cases feeColumn d.fee <;> exact ⟨hpools, hswaps, hpositions⟩
  | false =>
    cases feeColumn d.fee with
    | none => exact ⟨hpools, hswaps, hpositions⟩
    | some fee =>
      refine ⟨?_, hswaps, hpositions⟩
      simp only [Bool.false_eq_true, if_false, hpools]

theorem step_poolCreated {r r' : Rows} {d : PoolCreatedJobData} (h : r.Same r')
    (hd : Storable (.poolCreated d)) :
    (handleRow feeOf validDate r (.poolCreated d)).Same
        (handleRow feeOf validDate r' (rawRow (.poolCreated d)).job) ↔
      Lossless feeOf validDate r.db (.poolCreated d) := by
  rw [same_handleRow hd (storable_job hd) ⟨h.createdAt, h.timestamp⟩]
  simp only [rawRow, RawRow.job, projectDated_poolCreated, h.swaps, h.positions, ← h.pools,
    stamped_self, and_true, Event.poolTimestamp, Lossless, createdPools]
  cases hfee : feeColumn d.fee with
  | none => simp [stamped_self]
  | some fee =>
    have hrow : ∀ o, createdRow { d with timestamp := none } fee o = createdRow d fee o := by
      intro o
      cases o <;> rfl
    have hsays := poolCreated_says_iff (t := r.db) hfee
    simp only [hrow, Option.isSome_some, forall_const, Option.mem_def]
    generalize createdRow d fee (r.db.pools d.poolId) = row at hsays ⊢
    cases htime : d.timestamp with
    | none => simp [badDate]
    | some timestamp =>
      simp only [badDate, Option.any_some, Option.any_none, Bool.not_eq_true', Bool.false_eq_true,
        if_false, Option.some.injEq, forall_eq']
      cases hvalid : validDate timestamp with
      | true =>
        simp only [Bool.true_eq_false, if_false, true_and, true_or, and_true]
        simp [stamped_update_iff]
      | false =>
        simp only [if_true, Bool.false_eq_true, false_or]
        rw [← hsays]
        constructor
        · intro hsame
          exact (congrFun hsame.1 d.poolId).trans (Function.update_self ..)
        · intro hsaid
          have hupdate : Function.update r.db.pools d.poolId (some row) = r.db.pools := by
            rw [← hsaid, Function.update_eq_self]
          simp only [hupdate, stamped_self, and_self]

/-- The pools after a swap. -/
def statePools (pools : String → Option PoolRow) (d : SwapProcessedJobData) :
    String → Option PoolRow :=
  if isValidSqrtPrice d.sqrtPriceX96 = some true then
    Function.update pools d.poolId (some (stateRow d (pools d.poolId)))
  else pools

/-- The swaps after a swap. -/
def createdSwaps (validDate : String → Bool) (t : Tables) (d : SwapProcessedJobData)
    (feeAmount : String) : String → Option SwapRow :=
  if CreatesSwap t d ∧ badDate validDate d.timestamp = false then
    Function.update t.swaps d.eventId (some (swapRow d feeAmount))
  else t.swaps

theorem resolveFeeAmount_storeEvent (t : Tables) (e : Event) (d : SwapProcessedJobData) :
    resolveFeeAmount feeOf (t.storeEvent e) d = resolveFeeAmount feeOf t d := by
  simp only [resolveFeeAmount, derivedFee, (storeEvent_same t e).1]

theorem projectDated_swapProcessed (t : Tables) (e : Event) (d : SwapProcessedJobData) :
    let db := projectDated feeOf validDate (t.storeEvent e) (.swapProcessed d)
    db.pools = statePools t.pools d ∧
      db.swaps = createdSwaps validDate t d (resolveFeeAmount feeOf t d) ∧
      db.positions = t.positions := by
  obtain ⟨hpools, hswaps, hpositions⟩ := storeEvent_same t e
  rcases hprice : isValidSqrtPrice d.sqrtPriceX96 with _ | (_ | _)
  · simp [projectDated, statePools, createdSwaps, CreatesSwap, hprice, hpools, hswaps, hpositions]
  · cases hdate : badDate validDate d.timestamp <;> cases hrow : t.swaps d.eventId <;>
      cases hpool : t.pools d.poolId <;>
      simp [projectDated, resolveFeeAmount_storeEvent, statePools, createdSwaps, CreatesSwap,
        upsertSwap, hprice, hdate, hpools, hswaps, hpositions, hrow, hpool]
  · cases hdate : badDate validDate d.timestamp <;> cases hrow : t.swaps d.eventId <;>
      simp [projectDated, resolveFeeAmount_storeEvent, statePools, createdSwaps, CreatesSwap,
        upsertSwap, upsertPoolState, hprice, hdate, hpools, hswaps, hpositions, hrow]

/-- What is rebuilt of a swap. -/
def bareSwap (d : SwapProcessedJobData) : SwapProcessedJobData :=
  { d with transactionHash := none, feeAmount := none, timestamp := none }

theorem statePools_bareSwap (pools : String → Option PoolRow) (d : SwapProcessedJobData) :
    statePools pools (bareSwap d) = statePools pools d := by
  have hrow : ∀ o, stateRow (bareSwap d) o = stateRow d o := by
    intro o
    cases o <;> rfl
  simp only [statePools, hrow]
  rfl

theorem createdSwaps_bareSwap (t : Tables) (d : SwapProcessedJobData) (feeAmount : String) :
    createdSwaps validDate t (bareSwap d) feeAmount =
      if CreatesSwap t d then
        Function.update t.swaps d.eventId (some (swapRow (bareSwap d) feeAmount))
      else t.swaps := by
  have hdate : badDate validDate (bareSwap d).timestamp = false := rfl
  simp only [createdSwaps, hdate, and_true]
  rfl

theorem swapRow_bareSwap {d : SwapProcessedJobData} {feeAmount feeAmount' : String} :
    swapRow d feeAmount = swapRow (bareSwap d) feeAmount' ↔
      d.transactionHash.getD d.eventId = d.eventId ∧ feeAmount = feeAmount' := by
  simp [swapRow, bareSwap]

/-- The rows of swaps and their timestamps. -/
theorem createdSwaps_same_iff {t : Tables} {d : SwapProcessedJobData} {fee : String}
    {old : String → Option String} :
    (createdSwaps validDate t d fee = createdSwaps validDate t (bareSwap d) (derivedFee feeOf t d) ∧
        stamped t.swaps (createdSwaps validDate t d fee) d.timestamp old =
          stamped t.swaps (createdSwaps validDate t (bareSwap d) (derivedFee feeOf t d)) none old) ↔
      (CreatesSwap t d → d.timestamp = none ∧ d.transactionHash.getD d.eventId = d.eventId ∧
        fee = derivedFee feeOf t d) := by
  rw [createdSwaps_bareSwap]
  by_cases hcreates : CreatesSwap t d
  · have hnew : t.swaps d.eventId = none := hcreates.1
    simp only [createdSwaps, hcreates, true_and, if_true, forall_const]
    cases htime : d.timestamp with
    | none =>
      simp only [badDate, Option.any_none, if_true, true_and]
      rw [← swapRow_bareSwap]
      constructor
      · intro hsame
        simpa using congrFun hsame.1 d.eventId
      · intro hrow
        simp only [hrow, and_self]
    | some timestamp =>
      simp only [reduceCtorEq, false_and, iff_false]
      rintro ⟨hrows, hstamps⟩
      rw [hrows, stamped_update_iff, hnew] at hstamps
      simp at hstamps
  · simp [createdSwaps, hcreates, stamped_self]

theorem step_swapProcessed {r r' : Rows} {d : SwapProcessedJobData} (h : r.Same r')
    (hd : Storable (.swapProcessed d)) :
    (handleRow feeOf validDate r (.swapProcessed d)).Same
        (handleRow feeOf validDate r' (rawRow (.swapProcessed d)).job) ↔
      Lossless feeOf validDate r.db (.swapProcessed d) := by
  rw [same_handleRow hd (storable_job hd) ⟨h.createdAt, h.timestamp⟩]
  obtain ⟨⟨events, pools, swaps, positions⟩, createdAt, timestamp⟩ := r'
  obtain ⟨rfl, rfl, rfl, -, -⟩ := h
  have hjob : (rawRow (.swapProcessed d)).job = .swapProcessed (bareSwap d) := rfl
  simp only [hjob, projectDated_swapProcessed, statePools_bareSwap, Event.poolTimestamp,
    Event.timestamp, and_self, true_and, and_true]
  exact createdSwaps_same_iff

theorem upsertPosition_congr {t u : Tables} (d : PositionJobData) (closes : Bool)
    (hpools : t.pools = u.pools) (hswaps : t.swaps = u.swaps)
    (hpositions : t.positions = u.positions) :
    (upsertPosition t d closes).pools = (upsertPosition u d closes).pools ∧
      (upsertPosition t d closes).swaps = (upsertPosition u d closes).swaps ∧
      (upsertPosition t d closes).positions = (upsertPosition u d closes).positions := by
  simp only [upsertPosition, hpools, hpositions]
  split <;> exact ⟨by simp [hpools], by simp [hswaps], by simp [hpositions]⟩

theorem step_other {r r' : Rows} {e : Event} (h : r.Same r') (he : Storable e)
    (hpool : ∀ d, e ≠ .poolCreated d) (hswap : ∀ d, e ≠ .swapProcessed d) :
    (handleRow feeOf validDate r e).Same (handleRow feeOf validDate r' (rawRow e).job) := by
  rw [job_eq he.1 hpool hswap, same_handleRow he he ⟨h.createdAt, h.timestamp⟩]
  obtain ⟨hpools, hswaps, hpositions⟩ := storeEvent_same r.db e
  obtain ⟨hpools', hswaps', hpositions'⟩ := storeEvent_same r'.db e
  have hp := hpools.trans (h.pools.trans hpools'.symm)
  have hs := hswaps.trans (h.swaps.trans hswaps'.symm)
  have hq := hpositions.trans (h.positions.trans hpositions'.symm)
  have hposition := fun d closes => upsertPosition_congr d closes hp hs hq
  have hcongr : let db := projectDated feeOf validDate (r.db.storeEvent e) e
      let db' := projectDated feeOf validDate (r'.db.storeEvent e) e
      db.pools = db'.pools ∧ db.swaps = db'.swaps ∧ db.positions = db'.positions := by
    cases e with
    | poolCreated d => exact absurd rfl (hpool d)
    | swapProcessed d => exact absurd rfl (hswap d)
    | positionMinted d | positionBurned d => exact hposition d _
    | feesCollected d => exact ⟨hp, hs, hq⟩
  obtain ⟨hpools, hswaps, hpositions⟩ := hcongr
  dsimp only at hpools hswaps hpositions ⊢
  rw [hpools, hswaps, hpositions, h.pools, h.swaps]
  exact ⟨⟨rfl, rfl⟩, ⟨rfl, rfl⟩, rfl⟩

/-- **One event.** Its rebuilt job leaves the same rows exactly if nothing that makes a difference
is lost. -/
theorem step_same_iff {r r' : Rows} {e : Event} (h : r.Same r') (he : Storable e) :
    (handleRow feeOf validDate r e).Same (handleRow feeOf validDate r' (rawRow e).job) ↔
      Lossless feeOf validDate r.db e := by
  cases e with
  | poolCreated d => exact step_poolCreated h he
  | swapProcessed d => exact step_swapProcessed h he
  | positionMinted d | positionBurned d | feesCollected d =>
    exact iff_of_true (step_other h he nofun nofun) trivial

/-! ### Runs -/

theorem prefixes_same_iff {es : List Event} (hes : ∀ e ∈ es, Storable e) {r r' : Rows}
    (h : r.Same r') :
    (∀ pre, pre <+: es → (handleAll feeOf validDate r pre).Same
        (handleAll feeOf validDate r' (pre.map fun e => (rawRow e).job))) ↔
      LosslessAlong feeOf validDate r es := by
  induction es generalizing r r' with
  | nil =>
    refine iff_of_true (fun pre hpre => ?_) trivial
    obtain rfl := List.prefix_nil.mp hpre
    exact h
  | cons e es ih =>
    obtain ⟨he, hes⟩ := List.forall_mem_cons.mp hes
    rw [LosslessAlong]
    constructor
    · intro hall
      have hstep := hall [e] (by simp)
      refine ⟨(step_same_iff h he).mp hstep, (ih hes hstep).mp fun pre hpre => ?_⟩
      exact hall (e :: pre) (List.cons_prefix_cons.mpr ⟨rfl, hpre⟩)
    · rintro ⟨hlossless, hrest⟩ pre hpre
      rcases List.prefix_cons_iff.mp hpre with rfl | ⟨post, rfl, hpost⟩
      · exact h
      · exact (ih hes ((step_same_iff h he).mpr hlossless)).mpr hrest post hpost

/-- The jobs rebuilt after a run are those of its events. -/
theorem replayJobs_eq {fromLedger : ℕ} {es pre : List Event} (hes : ∀ e ∈ es, Storable e)
    (hledger : ∀ e ∈ es, ∃ ledger ∈ e.ledger, fromLedger ≤ ledger)
    (hkeys : (es.map Event.key).Nodup) (hpre : ∀ e ∈ pre, e ∈ es) :
    replayJobs fromLedger (handleAll feeOf validDate .empty es).db pre
      = pre.map fun e => (rawRow e).job := by
  rw [replayJobs, ← List.filterMap_eq_map']
  refine List.filterMap_congr fun e he => ?_
  obtain ⟨ledger, hledger, hfrom⟩ := hledger e (hpre e he)
  rw [handleAll_stored hes hkeys (.inr ⟨hpre e he, rfl⟩)]
  simp [Option.mem_def.mp hledger, hfrom]

/-- The rows of a database whose projections have been emptied. -/
def Rows.emptied (t : Tables) : Rows := ⟨t.rawOnly, fun _ => none, fun _ => none⟩

theorem replayed_same_iff {fromLedger : ℕ} {es : List Event} (hes : ∀ e ∈ es, Storable e)
    (hledger : ∀ e ∈ es, ∃ ledger ∈ e.ledger, fromLedger ≤ ledger)
    (hkeys : (es.map Event.key).Nodup) :
    let t := (handleAll feeOf validDate .empty es).db
    (∀ pre, pre <+: es → (handleAll feeOf validDate .empty pre).Same
        (handleAll feeOf validDate (.emptied t) (replayJobs fromLedger t pre))) ↔
      LosslessAlong feeOf validDate .empty es := by
  intro t
  rw [← prefixes_same_iff hes (show Rows.empty.Same (.emptied t) from ⟨rfl, rfl, rfl, rfl, rfl⟩)]
  refine forall_congr' fun pre => forall_congr' fun hpre => ?_
  rw [replayJobs_eq hes hledger hkeys fun _ h => hpre.subset h]

/-- A pool is created and a swap follows, with a transaction hash or without. -/
def sampleHistory (transactionHash : Option String) : List Event :=
  [.poolCreated ⟨"1-0", some 1, "P", "A", "B", "3000", "79228162514264337593543950336", none⟩,
    .swapProcessed ⟨"2-0", some 2, "P", "S", "S", "1000000", "-996000",
      "79307390676778602000000000000", "50000", 0, transactionHash, none, none⟩]

end Swyft.Indexer
