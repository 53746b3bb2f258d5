import Swyft.Indexer.Handlers
import Swyft.Indexer.Interference

/-!
# Acknowledged jobs

A job whose handler returns is acknowledged and gone. The write of its raw event cannot be missed
then, since it rethrows; but the readiness guard returns before any access, and the projections of
pools and swaps catch whatever happens to them, return, and let the checkpoint pass.

## Main definitions

* `Kept` — the raw event is stored and its pool and swap rows are as its projection leaves them
* `Acknowledges` — a handler that returns has kept its event, unless it is malformed
* `Covered` — every row of the projection is written or there already

## Main results

* `handler_process` — where nothing fails a handler does what `process` says
* `acknowledges_iff` — when acknowledged events are kept
-/

namespace Swyft.Indexer

variable {feeOf : String → ℤ → String} {validDate : String → Bool} {reply : Stage → Reply}
  {s : Store} {e : Event} {t t' : Tables}

/-! ### What is promised -/

/-- The rows of the event's projection are there, as it leaves them. A swap without a positive
price has no part in its pool. -/
def Projected (t : Tables) : Event → Prop
  | .poolCreated d => createdFacts d ≠ [] ∧ ∀ f ∈ createdFacts d, Holds t f
  | .swapProcessed d =>
    (isValidSqrtPrice d.sqrtPriceX96 = some true → ∀ f ∈ stateFacts d, Holds t f) ∧
      (t.swaps d.eventId).isSome
  | _ => True

structure Kept (t : Tables) (e : Event) : Prop where
  stored : t.HasEvent e
  projected : Projected t e

/-- A handler that returns has kept its event, unless it is malformed, and the checkpoint moves
for kept events only. -/
def Acknowledges (feeOf : String → ℤ → String) (validDate : String → Bool) (reply : Stage → Reply)
    (isReady : Bool) (s : Store) (e : Event) : Prop :=
  let x := handler feeOf validDate reply isReady s e
  (x.2 = .returned → guardEmptyData e = false ∨ Kept x.1.db e) ∧
    (x.1.cursor ≠ s.cursor → guardEmptyData e = true ∧ Kept x.1.db e)

/-- Every row of the projection is written, or was there before. -/
def Covered (validDate : String → Bool) (reply : Stage → Reply) (t : Tables) : Event → Prop
  | .poolCreated d =>
    reply .project = .served ∧ (feeColumn d.fee).isSome ∧ badDate validDate d.timestamp = false ∨
      Projected t (.poolCreated d)
  | .swapProcessed d =>
    match isValidSqrtPrice d.sqrtPriceX96 with
    | none => (t.swaps d.eventId).isSome
    | some false =>
      (t.swaps d.eventId).isSome ∨ reply .storeSwap = .served ∧
        badDate validDate d.timestamp = false ∧ (t.pools d.poolId).isSome
    | some true =>
      (reply .storeState = .served ∨ ∀ f ∈ stateFacts d, Holds t f) ∧
        ((t.swaps d.eventId).isSome ∨ reply .storeState = .served ∧ reply .storeSwap = .served ∧
          badDate validDate d.timestamp = false)
  | _ => True

/-- The write of the raw event goes through. -/
def Writes (reply : Stage → Reply) (e : Event) : Prop :=
  reply .write = .served ∧ ∀ ledger ∈ e.ledger, ledger < 2 ^ 31

/-! ### The ends of handlers -/

theorem settle_threw (n : ℕ) : settle feeOf validDate reply e n (s, .threw) = (s, .threw) := by
  cases n <;> rfl

theorem settle_returned (n : ℕ) :
    settle feeOf validDate reply e n (s, .returned) = (s, .returned) := by
  cases n <;> rfl

/-- A checkpoint leaves the tables alone and returns. -/
theorem settle_checkpoint {n : ℕ} (hn : 3 ≤ n) :
    ∃ cursor, settle feeOf validDate reply e n (s, checkpoint e) = (⟨s.db, cursor⟩, .returned) := by
  obtain ⟨n, rfl⟩ := Nat.exists_eq_add_of_le' hn
  have hended : ∀ (cursor : CursorStore) (m : ℕ), ∃ cursor', settle feeOf validDate reply e m
      (⟨s.db, cursor⟩, .returned) = (⟨s.db, cursor'⟩, .returned) := fun cursor m =>
    ⟨cursor, settle_returned m⟩
  rw [checkpoint]
  cases e.ledger with
  | none => exact hended s.cursor _
  | some ledger =>
    change ∃ cursor, settle _ _ _ _ _ (s, if isSafeInteger ledger = true then _ else _) = _
    split
    · simp only [settle, Work.stage]
      cases reply .setMax with
      | failed => exact hended s.cursor _
      | served =>
        simp only [handle, advanceLedger, settle, Work.stage]
        cases reply .findUnique with
        | failed => exact hended _ _
        | served =>
          dsimp only
          split
          · simp only [settle, Work.stage]
            cases reply .upsert <;> exact hended _ _
          · exact hended _ _
    · exact hended s.cursor _

/-! ### The tables a projection leaves -/

/-- The tables after the last access of a swap. -/
def swapTables (validDate : String → Bool) (reply : Stage → Reply) (t : Tables)
    (d : SwapProcessedJobData) (feeAmount : String) : Tables :=
  if reply .storeSwap = .served ∧ refuses validDate t (.storeSwap d feeAmount) = false then
    upsertSwap t d feeAmount
  else t

/-- The tables a projection leaves; `feeAmount` is the fee it has found for a swap. -/
def projectedTables (validDate : String → Bool) (reply : Stage → Reply) (t : Tables)
    (feeAmount : String) : Event → Tables
  | .poolCreated d =>
    if reply .project = .served ∧ refuses validDate t (.project (.poolCreated d)) = false then
      projectPoolCreated t d
    else t
  | .swapProcessed d =>
    match isValidSqrtPrice d.sqrtPriceX96 with
    | none => t
    | some false => swapTables validDate reply t d feeAmount
    | some true =>
      if reply .storeState = .served then
        swapTables validDate reply (upsertPoolState t d) d feeAmount
      else t
  | _ => t

theorem settle_storeSwap {n : ℕ} (hn : 4 ≤ n) (d : SwapProcessedJobData) (feeAmount : String) :
    ∃ cursor, settle feeOf validDate reply e n (s, .working (.access (.storeSwap d feeAmount)))
      = (⟨swapTables validDate reply s.db d feeAmount, cursor⟩, .returned) := by
  obtain ⟨n, rfl⟩ := Nat.exists_eq_add_of_le' hn
  simp only [settle, Work.stage, swapTables]
  cases reply .storeSwap with
  | failed => exact settle_checkpoint (by omega)
  | served =>
    simp only [handle, true_and]
    cases hrefused : refuses validDate s.db (.storeSwap d feeAmount) with
    | true => exact settle_checkpoint (by omega)
    | false =>
      exact settle_checkpoint (s := ⟨upsertSwap s.db d feeAmount, s.cursor⟩) (by omega)

/-- What is left of a swap once its fee is found. -/
theorem advance_swap (feeOf : String → ℤ → String) (t : Tables) (d : SwapProcessedJobData) :
    advance feeOf t (.project (.swapProcessed d)) = (t,
      match isValidSqrtPrice d.sqrtPriceX96 with
      | none => []
      | some false => [.storeSwap d (resolveFeeAmount feeOf t d)]
      | some true => [.storeState d (resolveFeeAmount feeOf t d)]) := by
  simp only [advance]
  split <;> simp_all

theorem settle_swap {d : SwapProcessedJobData} (feeAmount : String) {ks : List Task}
    (hks : ks = match isValidSqrtPrice d.sqrtPriceX96 with
      | none => []
      | some false => [.storeSwap d feeAmount]
      | some true => [.storeState d feeAmount]) :
    ∃ cursor, settle feeOf validDate reply e 5 (s, goOn e ks)
      = (⟨projectedTables validDate reply s.db feeAmount (.swapProcessed d), cursor⟩,
        .returned) := by
  subst hks
  simp only [projectedTables]
  cases isValidSqrtPrice d.sqrtPriceX96 with
  | none => exact settle_checkpoint (by omega)
  | some valid =>
    cases valid with
    | false => exact settle_storeSwap (by omega) d feeAmount
    | true =>
      simp only [goOn, settle, Work.stage]
      cases reply .storeState with
      | failed => exact settle_checkpoint (by omega)
      | served =>
        exact settle_storeSwap (s := ⟨upsertPoolState s.db d, s.cursor⟩) (by omega) d feeAmount

/-- The fee found for a swap: without an answer, that of a pool that is not there. -/
def foundFee (feeOf : String → ℤ → String) (reply : Stage → Reply) (t : Tables) : Event → String
  | .swapProcessed d =>
    if reply .project = .served then resolveFeeAmount feeOf t d
    else resolveFeeAmount feeOf .empty d
  | _ => ""

/-- A projection that does not belong to a position ends with the handler returning. -/
theorem settle_project (he : ∀ d, e ≠ .positionMinted d ∧ e ≠ .positionBurned d) :
    ∃ cursor, settle feeOf validDate reply e 6 (s, .working (.access (.project e)))
      = (⟨projectedTables validDate reply s.db (foundFee feeOf reply s.db e) e, cursor⟩,
        .returned) := by
  cases e with
  | poolCreated d =>
    simp only [settle, Work.stage, projectedTables]
    cases reply .project with
    | failed => exact settle_checkpoint (by omega)
    | served =>
      simp only [handle, true_and]
      cases hrefused : refuses validDate s.db (.project (.poolCreated d)) with
      | true => exact settle_checkpoint (by omega)
      | false => exact settle_checkpoint (s := ⟨projectPoolCreated s.db d, s.cursor⟩) (by omega)
  | swapProcessed d =>
    rw [settle, Work.stage, foundFee]
    cases reply .project with
    | failed =>
      refine settle_swap _ ?_
      simp only [advance_swap, reduceCtorEq, if_false]
    | served =>
      have hserved : handle feeOf validDate s (.swapProcessed d)
          (.access (.project (.swapProcessed d))) .served
          = (s, goOn (.swapProcessed d) (advance feeOf s.db (.project (.swapProcessed d))).2) := by
        simp only [handle, refuses, Bool.false_eq_true, if_false, advance_swap]
      rw [hserved]
      exact settle_swap _ (by simp only [advance_swap, if_true])
  | positionMinted d => exact absurd rfl (he d).1
  | positionBurned d => exact absurd rfl (he d).2
  | feesCollected d =>
    rw [settle, Work.stage]
    cases reply .project <;> exact settle_checkpoint (by omega)

/-! ### When the rows are there -/

theorem swapTables_pools (d : SwapProcessedJobData) (feeAmount : String) :
    (swapTables validDate reply t d feeAmount).pools = t.pools := by
  simp only [swapTables]
  split
  · exact (upsertSwap_same t d feeAmount).1
  · rfl

theorem upsertSwap_isSome {d : SwapProcessedJobData} {feeAmount : String}
    (h : (t.swaps d.eventId).isSome ∨ (t.pools d.poolId).isSome) :
    ((upsertSwap t d feeAmount).swaps d.eventId).isSome := by
  simp only [upsertSwap]
  split
  case h_1 hrow => simp [hrow]
  case h_2 hrow hpool => simp [hrow, hpool] at h
  case h_3 => simp

theorem swapTables_isSome {d : SwapProcessedJobData} {feeAmount : String} :
    ((swapTables validDate reply t d feeAmount).swaps d.eventId).isSome ↔
      (t.swaps d.eventId).isSome ∨ reply .storeSwap = .served ∧
        badDate validDate d.timestamp = false ∧ (t.pools d.poolId).isSome := by
  simp only [swapTables]
  split
  case isTrue h =>
    obtain ⟨hserved, hrefused⟩ := h
    simp only [refuses, Bool.or_eq_false_iff, Bool.and_eq_false_iff, Option.isNone_eq_false_iff]
      at hrefused
    refine ⟨fun _ => ?_, fun h => upsertSwap_isSome (h.imp_right fun h => h.2.2)⟩
    exact hrefused.2.imp_right fun h => ⟨hserved, hrefused.1, h⟩
  case isFalse h =>
    refine ⟨.inl, fun hrow => hrow.resolve_right fun ⟨hserved, hdate, hpool⟩ => h ⟨hserved, ?_⟩⟩
    simp [refuses, hdate, hpool]

theorem holds_of_pools {f : Fact} (h : t.pools = t'.pools) : Holds t f ↔ Holds t' f := by
  simp only [Holds, h]

/-- The rows of a projection are there in the end if they are written or were there before. -/
theorem projected_iff (feeAmount : String) :
    Projected (projectedTables validDate reply t feeAmount e) e ↔ Covered validDate reply t e := by
  cases e with
  | poolCreated d =>
    simp only [projectedTables, Covered]
    split
    case isTrue h =>
      obtain ⟨hserved, hrefused⟩ := h
      simp only [refuses, Bool.or_eq_false_iff, Option.isNone_eq_false_iff] at hrefused
      refine iff_of_true ⟨?_, fun f hf => projectPoolCreated_holds (.inl hf)⟩
        (.inl ⟨hserved, hrefused⟩)
      obtain ⟨fee, hfee⟩ := Option.isSome_iff_exists.mp hrefused.1
      simp [createdFacts, hfee]
    case isFalse h =>
      refine ⟨.inr, fun hcovered => hcovered.resolve_left ?_⟩
      rintro ⟨hserved, hfee, hdate⟩
      refine h ⟨hserved, ?_⟩
      simp [refuses, hdate, hfee]
  | swapProcessed d =>
    simp only [projectedTables, Covered, Projected]
    cases isValidSqrtPrice d.sqrtPriceX96 with
    | none => simp
    | some valid =>
      cases valid with
      | false => simp [swapTables_isSome]
      | true =>
        simp only [forall_const]
        cases reply .storeState with
        | failed => simp
        | served =>
          have hholds : ∀ f ∈ stateFacts d,
              Holds (swapTables validDate reply (upsertPoolState t d) d feeAmount) f := fun f hf =>
            (holds_of_pools (swapTables_pools d feeAmount)).mpr (upsertPoolState_holds (.inl hf))
          have hpool : ((upsertPoolState t d).pools d.poolId).isSome := by simp [upsertPoolState]
          have hswaps : (upsertPoolState t d).swaps = t.swaps := rfl
          simp only [if_pos, swapTables_isSome, hpool, hswaps, and_true, true_and, true_or]
          exact and_iff_right hholds
  | positionMinted d | positionBurned d | feesCollected d => exact iff_of_true trivial trivial

/-! ### When acknowledged events are kept -/

theorem projected_storeEvent : Projected (t.storeEvent e) e ↔ Projected t e := by
  obtain ⟨hpools, hswaps, -⟩ := storeEvent_same t e
  cases e <;> simp only [Projected, holds_of_pools hpools, hswaps]

theorem covered_storeEvent :
    Covered validDate reply (t.storeEvent e) e ↔ Covered validDate reply t e := by
  obtain ⟨hpools, hswaps, -⟩ := storeEvent_same t e
  cases e <;> simp only [Covered, projected_storeEvent, holds_of_pools hpools, hpools, hswaps]

theorem writes_iff :
    reply .write = .served ∧ refuses validDate t (.write e) = false ↔ Writes reply e := by
  cases hledger : e.ledger <;> simp [Writes, refuses, hledger]

theorem handler_writes (hguard : guardEmptyData e = true) (hwrites : Writes reply e) :
    handler feeOf validDate reply true s e = settle feeOf validDate reply e 6
      (⟨s.db.storeEvent e, s.cursor⟩, .working (.access (.project e))) := by
  obtain ⟨hserved, hrefused⟩ := writes_iff.mpr hwrites
  simp only [handler, guardedHandler, hguard, Bool.true_and, if_true, settle, Work.stage, hserved,
    handle]
  rw [hrefused]
  rfl

/-- A handler whose raw event is not written throws. -/
theorem handler_throws (hguard : guardEmptyData e = true) (hwrites : ¬ Writes reply e) :
    handler feeOf validDate reply true s e = (s, .threw) := by
  rw [← writes_iff] at hwrites
  simp only [handler, guardedHandler, hguard, Bool.true_and, if_true, settle, Work.stage]
  cases hreply : reply .write with
  | failed => exact settle_threw _
  | served =>
    cases hrefused : refuses validDate s.db (.write e) with
    | true =>
      simp only [handle, hrefused, if_true]
      exact settle_threw _
    | false => exact absurd ⟨hreply, hrefused⟩ hwrites

theorem settle_hasEvent {x : Event} (h : s.db.HasEvent x) (n : ℕ) (a : Handling) :
    (settle feeOf validDate reply e n (s, a)).1.db.HasEvent x := by
  induction n generalizing s a with
  | zero => exact h
  | succ n ih =>
    cases a with
    | working w => exact ih (handle_hasEvent w _ h) _
    | returned | threw => exact h

/-- **When acknowledged jobs are kept.** -/
theorem acknowledges_iff {isReady : Bool} :
    Acknowledges feeOf validDate reply isReady s e ↔
      guardEmptyData e = false ∨ isReady = false ∧ Kept s.db e ∨
        isReady = true ∧ (Writes reply e → Covered validDate reply s.db e) := by
  have hreturned : guardEmptyData e = false ∨ isReady = false →
      handler feeOf validDate reply isReady s e = (s, .returned) := by
    rintro (h | rfl)
    · simp [handler, guardedHandler, h, settle]
    · simp [handler, guardedHandler, settle]
  cases hguard : guardEmptyData e with
  | false => simp [Acknowledges, hreturned (.inl hguard), hguard]
  | true =>
    cases isReady with
    | false => simp [Acknowledges, hreturned (.inr rfl), hguard]
    | true =>
      simp only [Bool.true_eq_false, false_or, false_and, true_and]
      by_cases hwrites : Writes reply e
      · have hstored : (handler feeOf validDate reply true s e).1.db.HasEvent e := by
          rw [handler_writes hguard hwrites]
          exact settle_hasEvent (storeEvent_hasEvent s.db e) _ _
        rw [Acknowledges, hguard]
        by_cases hposition : ∃ d, e = .positionMinted d ∨ e = .positionBurned d
        · have hprojected : ∀ t, Projected t e := by
            obtain ⟨d, rfl | rfl⟩ := hposition <;> exact fun _ => trivial
          have hcovered : Covered validDate reply s.db e := by
            obtain ⟨d, rfl | rfl⟩ := hposition <;> trivial
          refine iff_of_true ⟨fun _ => .inr ⟨hstored, hprojected _⟩, fun _ => ?_⟩ fun _ => hcovered
          exact ⟨rfl, hstored, hprojected _⟩
        · obtain ⟨cursor, hend⟩ := settle_project fun d =>
            ⟨fun h => hposition ⟨d, .inl h⟩, fun h => hposition ⟨d, .inr h⟩⟩
          have hkept : Kept (handler feeOf validDate reply true s e).1.db e ↔
              Covered validDate reply s.db e := by
            rw [← covered_storeEvent, ← projected_iff (foundFee feeOf reply (s.db.storeEvent e) e)]
            rw [handler_writes hguard hwrites, hend] at hstored ⊢
            exact ⟨Kept.projected, fun h => ⟨hstored, h⟩⟩
          rw [hkept, handler_writes hguard hwrites, hend]
          refine ⟨fun h _ => (h.1 rfl).resolve_left nofun, fun h => ⟨fun _ => .inr (h hwrites), ?_⟩⟩
          exact fun _ => ⟨rfl, h hwrites⟩
      · simp [Acknowledges, handler_throws hguard hwrites, hwrites]

/-! ### Handlers among which nothing fails -/

def Event.timestamp : Event → Option String
  | .poolCreated d => d.timestamp
  | .swapProcessed d => d.timestamp
  | .positionMinted _ | .positionBurned _ | .feesCollected _ => none

/-- What the handler of an accepted event does after the raw event is stored, when no access
fails: as `projectEvent`, but for a timestamp that is refused. -/
def projectDated (feeOf : String → ℤ → String) (validDate : String → Bool) (t : Tables) :
    Event → Tables
  | .poolCreated d => if badDate validDate d.timestamp then t else projectPoolCreated t d
  | .swapProcessed d =>
    let feeAmount := resolveFeeAmount feeOf t d
    match isValidSqrtPrice d.sqrtPriceX96 with
    | none => t
    | some false => if badDate validDate d.timestamp then t else upsertSwap t d feeAmount
    | some true =>
      if badDate validDate d.timestamp then upsertPoolState t d
      else upsertSwap (upsertPoolState t d) d feeAmount
  | e => projectEvent feeOf t e

theorem projectDated_eq (hdate : badDate validDate e.timestamp = false) :
    projectDated feeOf validDate t e = projectEvent feeOf t e := by
  cases e with
  | poolCreated d =>
    have hdate : badDate validDate d.timestamp = false := hdate
    simp only [projectDated, hdate, Bool.false_eq_true, if_false, projectEvent]
  | swapProcessed d =>
    have hdate : badDate validDate d.timestamp = false := hdate
    rcases hprice : isValidSqrtPrice d.sqrtPriceX96 with _ | (_ | _) <;>
      simp [projectDated, projectEvent, hprice, hdate]
  | positionMinted d | positionBurned d | feesCollected d => rfl

theorem swapTables_served {d : SwapProcessedJobData} (feeAmount : String)
    (hserved : reply .storeSwap = .served) :
    swapTables validDate reply t d feeAmount =
      if badDate validDate d.timestamp then t else upsertSwap t d feeAmount := by
  simp only [swapTables, hserved, refuses, upsertSwap]
  cases badDate validDate d.timestamp <;> cases t.swaps d.eventId <;>
    cases t.pools d.poolId <;> rfl

theorem projectedTables_served (hserved : ∀ stage, reply stage = .served)
    (he : ∀ d, e ≠ .positionMinted d ∧ e ≠ .positionBurned d) :
    projectedTables validDate reply t (foundFee feeOf reply t e) e
      = projectDated feeOf validDate t e := by
  cases e with
  | poolCreated d =>
    simp only [projectedTables, projectDated, projectPoolCreated, refuses, hserved]
    cases badDate validDate d.timestamp <;> cases feeColumn d.fee <;> rfl
  | swapProcessed d =>
    simp only [projectedTables, projectDated, foundFee, hserved, if_true]
    cases isValidSqrtPrice d.sqrtPriceX96 with
    | none => rfl
    | some valid => cases valid <;> exact swapTables_served _ (hserved _)
  | positionMinted d => exact absurd rfl (he d).1
  | positionBurned d => exact absurd rfl (he d).2
  | feesCollected d => rfl

/-- A position handler projects its event, or throws for want of a pool. -/
theorem settle_position (hserved : ∀ stage, reply stage = .served) {d : PositionJobData}
    (he : e = .positionMinted d ∨ e = .positionBurned d) :
    (settle feeOf validDate reply e 6 (s, .working (.access (.project e)))).1.db
      = projectDated feeOf validDate s.db e := by
  have hproject : advance feeOf s.db (.project e) = (projectDated feeOf validDate s.db e, []) := by
    rcases he with rfl | rfl <;> rfl
  have hfails : fails feeOf e (.project e) = .threw := by rcases he with rfl | rfl <;> rfl
  have hrefused : refuses validDate s.db (.project e) = true →
      projectDated feeOf validDate s.db e = s.db := by
    rcases he with rfl | rfl <;>
    · simp only [refuses, Bool.and_eq_true, Option.isNone_iff_eq_none]
      rintro ⟨hrow, hpool⟩
      simp only [projectDated, projectEvent, upsertPosition, hrow, hpool]
  simp only [settle, Work.stage, hserved, handle, hproject, hfails]
  split
  case isTrue h => rw [settle_threw, hrefused h]
  case isFalse =>
    obtain ⟨cursor, h⟩ : ∃ cursor, settle feeOf validDate reply e 5
        (⟨projectDated feeOf validDate s.db e, s.cursor⟩, checkpoint e)
        = (⟨projectDated feeOf validDate s.db e, cursor⟩, .returned) := settle_checkpoint (by omega)
    rw [goOn, h]

/-- What a handler that no access fails leaves behind. -/
theorem handler_served (hserved : ∀ stage, reply stage = .served)
    (hledger : ∀ ledger ∈ e.ledger, ledger < 2 ^ 31) (hguard : guardEmptyData e = true) :
    (handler feeOf validDate reply true s e).1.db
      = projectDated feeOf validDate (s.db.storeEvent e) e := by
  rw [handler_writes hguard ⟨hserved _, hledger⟩]
  by_cases hposition : ∃ d, e = .positionMinted d ∨ e = .positionBurned d
  · obtain ⟨d, he⟩ := hposition
    exact settle_position hserved he
  · have he : ∀ d, e ≠ .positionMinted d ∧ e ≠ .positionBurned d := fun d =>
      ⟨fun h => hposition ⟨d, .inl h⟩, fun h => hposition ⟨d, .inr h⟩⟩
    obtain ⟨cursor, hend⟩ := settle_project he
    rw [hend]
    exact projectedTables_served hserved he

/-- **A handler that nothing fails does what `process` says.** -/
theorem handler_process (hserved : ∀ stage, reply stage = .served)
    (hledger : ∀ ledger ∈ e.ledger, ledger < 2 ^ 31)
    (hdate : badDate validDate e.timestamp = false) :
    (handler feeOf validDate reply true s e).1.db = process feeOf s.db e := by
  by_cases hguard : guardEmptyData e = true
  · rw [handler_served hserved hledger hguard, projectDated_eq hdate, process, if_pos hguard]
  · simp [handler, guardedHandler, hguard, settle, process]

/-! ### A swap that is lost -/

/-- The database answers but for the upsert of a swap's pool. -/
def poolUpsertFails : Stage → Reply
  | .storeState => .failed
  | _ => .served

/-- The handler of a swap whose pool cannot be upserted returns, having left no swap. -/
theorem swap_lost :
    ¬ ∀ feeOf validDate reply isReady s e, Acknowledges feeOf validDate reply isReady s e := by
  intro h
  have hswap := (h sampleFee (fun _ => true) poolUpsertFails true ⟨.empty, ⟨none, none⟩⟩
    (sampleSwap "2-0" "79228162514264337593543950336")).1 (by decide)
  have hkept : Kept _ _ := hswap.resolve_left (by decide)
  exact absurd hkept.projected.2 (by decide)

end Swyft.Indexer
