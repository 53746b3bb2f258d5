import Swyft.Indexer.Facts
import Swyft.Indexer.Cursor

/-!
# Handlers whose accesses fail

`guardedHandler` and the five handlers of `apps/api/src/indexer/indexer.worker.ts`, access by
access, with the checkpoint each ends with. An access is answered or it fails; one that the
database refuses for what it is given fails by itself.

Where a failure leads is written out in the source: the write of the raw event and the position
handlers rethrow, so that the queue keeps the job; the projections of pools and swaps log it and
go on, and so does the checkpoint.

`validDate` says which texts `new Date` reads as a date. The upserts of the tokens are part of the
access that upserts the pool, which fails if one of them does; tracing, webhooks and the
enrichment of tokens cannot make a handler throw and are left out.

## Main results

* `handle_row`, `handle_hasEvent` — what an access does to the cursor and to the raw events
* `handle_left` — where a handler goes on
-/

namespace Swyft.Indexer

/-- How the database answers an access. -/
inductive Reply where
  | served | failed
  deriving DecidableEq

/-- The next access of a job, to the tables or for its checkpoint. -/
inductive Work where
  | access (k : Task)
  | checkpoint (call : AdvanceCall)
  deriving DecidableEq

/-- Where a handler is. -/
inductive Handling where
  | working (w : Work)
  | returned
  | threw
  deriving DecidableEq

structure Store where
  db : Tables
  cursor : CursorStore

def Event.ledger : Event → Option ℕ
  | .poolCreated d => d.ledger
  | .swapProcessed d => d.ledger
  | .positionMinted d => d.ledger
  | .positionBurned d => d.ledger
  | .feesCollected d => d.ledger

/-- `IndexerWorker.advanceLedger`, the last thing a handler does. -/
def checkpoint (e : Event) : Handling :=
  match e.ledger with
  | none => .returned
  | some ledger =>
    if isSafeInteger ledger then .working (.checkpoint (.setMax ledger)) else .returned

/-- The handler goes on with what is left of its stages. -/
def goOn (e : Event) : List Task → Handling
  | [] => checkpoint e
  | k :: _ => .working (.access k)

/-- A `timestamp` that a column of dates refuses. -/
def badDate (validDate : String → Bool) (timestamp : Option String) : Bool :=
  timestamp.any fun text => !validDate text

/-- What the database refuses whatever its state of health: a ledger past the column of 32-bit
integers, a fee or a timestamp that is none, a row whose pool is not there. -/
def refuses (validDate : String → Bool) (t : Tables) : Task → Bool
  | .write e => e.ledger.any fun ledger => 2 ^ 31 ≤ ledger
  | .project (.poolCreated d) => (feeColumn d.fee).isNone || badDate validDate d.timestamp
  | .project (.swapProcessed _) => false
  | .project (.positionMinted d) | .project (.positionBurned d) =>
    (t.positions (d.poolId, d.tokenId)).isNone && (t.pools d.poolId).isNone
  | .project (.feesCollected _) => false
  | .storeState _ _ => false
  | .storeSwap d _ =>
    badDate validDate d.timestamp || (t.swaps d.eventId).isNone && (t.pools d.poolId).isNone

/-- Where a failing access leads. -/
def fails (feeOf : String → ℤ → String) (e : Event) : Task → Handling
  | .write _ | .project (.positionMinted _) | .project (.positionBurned _) => .threw
  -- a pool that cannot be read counts as one that is not there
  | .project (.swapProcessed d) =>
    goOn e (advance feeOf Tables.empty (.project (.swapProcessed d))).2
  | .project (.poolCreated _) | .project (.feesCollected _) | .storeState _ _ | .storeSwap _ _ =>
    checkpoint e

/-- One access of the handler of `e`. -/
def handle (feeOf : String → ℤ → String) (validDate : String → Bool) (s : Store) (e : Event) :
    Work → Reply → Store × Handling
  | .access k, .served =>
    if refuses validDate s.db k then (s, fails feeOf e k)
    else ({ s with db := (advance feeOf s.db k).1 }, goOn e (advance feeOf s.db k).2)
  | .access k, .failed => (s, fails feeOf e k)
  | .checkpoint call, .served =>
    let (cursor, calls, _) := advanceLedger s.cursor call
    ({ s with cursor },
      match calls with
      | [] => .returned
      | call :: _ => .working (.checkpoint call))
  | .checkpoint _, .failed => (s, .returned)

/-- `guardedHandler`: what a job begins with. -/
def guardedHandler (isReady : Bool) (e : Event) : Handling :=
  if isReady && guardEmptyData e then .working (.access (.write e)) else .returned

/-- Which access of a handler it is. None makes the same twice. -/
inductive Stage where
  | write | project | storeState | storeSwap | setMax | findUnique | upsert
  deriving DecidableEq

def Work.stage : Work → Stage
  | .access (.write _) => .write
  | .access (.project _) => .project
  | .access (.storeState _ _) => .storeState
  | .access (.storeSwap _ _) => .storeSwap
  | .checkpoint (.setMax _) => .setMax
  | .checkpoint (.findUnique _ _) => .findUnique
  | .checkpoint (.upsert _) => .upsert

/-- The first `n` accesses of a handler. -/
def settle (feeOf : String → ℤ → String) (validDate : String → Bool) (reply : Stage → Reply)
    (e : Event) : ℕ → Store × Handling → Store × Handling
  | n + 1, (s, .working w) =>
    settle feeOf validDate reply e n (handle feeOf validDate s e w (reply w.stage))
  | _, x => x

/-- A job handled from beginning to end: no handler makes more accesses than seven. -/
def handler (feeOf : String → ℤ → String) (validDate : String → Bool) (reply : Stage → Reply)
    (isReady : Bool) (s : Store) (e : Event) : Store × Handling :=
  settle feeOf validDate reply e 7 (s, guardedHandler isReady e)

/-! ### What an access does -/

section Access

variable {feeOf : String → ℤ → String} {validDate : String → Bool} {s : Store} {e : Event}

/-- The raw event has its row. -/
def Tables.HasEvent (t : Tables) (e : Event) : Prop := (t.events e.queue e.eventId).isSome

instance decidableHasEvent (t : Tables) (e : Event) : Decidable (t.HasEvent e) :=
  inferInstanceAs (Decidable ((t.events e.queue e.eventId).isSome = true))

theorem storeEvent_hasEvent (t : Tables) (e : Event) : (t.storeEvent e).HasEvent e := by
  simp only [Tables.HasEvent, Tables.storeEvent]
  split
  case h_1 h => simp [h]
  case h_2 => simp

theorem storeEvent_keeps {t : Tables} {x : Event} (h : t.HasEvent x) (e : Event) :
    (t.storeEvent e).HasEvent x := by
  simp only [Tables.HasEvent, Tables.storeEvent] at h ⊢
  split
  · exact h
  · by_cases hq : x.queue = e.queue
    · by_cases hid : x.eventId = e.eventId
      · simp [hq, hid]
      · rw [hq] at h
        simpa [hq, hid] using h
    · simpa [hq] using h

/-- Only the first access of a handler is to the raw events. -/
theorem advance_events (feeOf : String → ℤ → String) (t : Tables) {k : Task}
    (h : ∀ e, k ≠ .write e) : (advance feeOf t k).1.events = t.events := by
  cases k with
  | write e => exact absurd rfl (h e)
  | project e =>
    cases e with
    | poolCreated d =>
      simp only [advance, projectPoolCreated]
      split <;> rfl
    | swapProcessed d =>
      simp only [advance]
      split <;> rfl
    | positionMinted d | positionBurned d =>
      simp only [advance, upsertPosition]
      split <;> rfl
    | feesCollected d => rfl
  | storeState d feeAmount => rfl
  | storeSwap d feeAmount =>
    simp only [advance, upsertSwap]
    split <;> rfl

/-- What is left of a job is no write of its raw event. -/
theorem advance_left {t : Tables} {k k' : Task} (h : k' ∈ (advance feeOf t k).2) (x : Event) :
    k' ≠ .write x := by
  rintro rfl
  cases k with
  | write e => simp [advance] at h
  | project e =>
    cases e with
    | swapProcessed d =>
      simp only [advance] at h
      split at h <;> simp at h
    | poolCreated d | positionMinted d | positionBurned d | feesCollected d => cases h
  | storeState d feeAmount => simp [advance] at h
  | storeSwap d feeAmount => cases h

theorem checkpoint_left (e x : Event) : checkpoint e ≠ .working (.access (.write x)) := by
  rw [checkpoint]
  cases e.ledger with
  | none => exact nofun
  | some ledger =>
    change (if isSafeInteger ledger = true then _ else _) ≠ _
    split <;> exact nofun

theorem goOn_left {ks : List Task} {x : Event} (h : ∀ k ∈ ks, k ≠ .write x) :
    goOn e ks ≠ .working (.access (.write x)) := by
  cases ks with
  | nil => exact checkpoint_left e x
  | cons k ks =>
    rintro ⟨⟩
    exact h _ (.head _) rfl

theorem fails_left (k : Task) (x : Event) :
    fails feeOf e k ≠ .working (.access (.write x)) := by
  cases k with
  | write e => exact nofun
  | project e' =>
    cases e' with
    | poolCreated d | feesCollected d => exact checkpoint_left e x
    | swapProcessed d => exact goOn_left fun k hk => advance_left hk x
    | positionMinted d | positionBurned d => exact nofun
  | storeState d feeAmount | storeSwap d feeAmount => exact checkpoint_left e x

/-- A handler writes its raw event first or not at all. -/
theorem handle_left (w : Work) (reply : Reply) (x : Event) :
    (handle feeOf validDate s e w reply).2 ≠ .working (.access (.write x)) := by
  cases w with
  | access k =>
    cases reply with
    | failed => exact fails_left k x
    | served =>
      simp only [handle]
      split
      · exact fails_left k x
      · exact goOn_left fun k' hk' => advance_left hk' x
  | checkpoint call =>
    cases reply with
    | failed => exact nofun
    | served =>
      simp only [handle]
      split <;> exact nofun

/-- Raw events stay. -/
theorem handle_hasEvent (w : Work) (reply : Reply) {x : Event} (h : s.db.HasEvent x) :
    (handle feeOf validDate s e w reply).1.db.HasEvent x := by
  cases w with
  | access k =>
    cases reply with
    | failed => exact h
    | served =>
      simp only [handle]
      split
      · exact h
      · by_cases hwrite : ∃ e', k = .write e'
        · obtain ⟨e', rfl⟩ := hwrite
          exact storeEvent_keeps h e'
        · have hevents := advance_events feeOf s.db fun e' he' => hwrite ⟨e', he'⟩
          simpa only [Tables.HasEvent, hevents] using h
  | checkpoint call =>
    cases reply <;> exact h

/-- After the write of the raw event the handler has thrown or the event is there. -/
theorem handle_write (reply : Reply) (e' : Event) :
    (handle feeOf validDate s e (.access (.write e')) reply).2 = .threw ∨
      (handle feeOf validDate s e (.access (.write e')) reply).1.db.HasEvent e' := by
  cases reply with
  | failed => exact .inl rfl
  | served =>
    simp only [handle]
    split
    · exact .inl rfl
    · exact .inr (storeEvent_hasEvent s.db e')

/-- The row of the cursor is written by the last access of a checkpoint alone. -/
theorem handle_row {w : Work} {reply : Reply}
    (h : ∀ ledger, w = .checkpoint (.upsert ledger) → reply = .failed) :
    (handle feeOf validDate s e w reply).1.cursor.row = s.cursor.row := by
  cases w with
  | access k =>
    cases reply with
    | failed => rfl
    | served =>
      simp only [handle]
      split <;> rfl
  | checkpoint call =>
    cases reply with
    | failed => rfl
    | served =>
      cases call with
      | setMax ledger => rfl
      | findUnique ledger cacheUpdated =>
        simp only [handle, advanceLedger]
        split <;> rfl
      | upsert ledger => cases h ledger rfl

end Access

end Swyft.Indexer
