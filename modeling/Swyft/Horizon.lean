import Swyft.Indexer.Model
import Swyft.Lib.Grouping
import Mathlib.Order.WithBot

/-!
# Polling Horizon for effects

`apps/api/src/horizon/horizon.service.ts`: each tracked account has a cursor, the paging token of
the last effect whose job was handed to the queues. A poll asks for the effects after it, puts
them into groups by ledger, with one group for those without a ledger, and goes through the groups
in the order in which they begin. The cursor is set after each group.

A group that is not the last one may enclose effects of another group. The cursor then passes
effects that have not been enqueued, and is set back when their turn comes, or never if the poll
fails before.

## What is deliberately absent

Prices: publishing one may fail, which ends the poll, and does nothing else here. A request that
fails leaves everything as an empty page does. The cursors live in memory only, and the accounts
are polled one after the other.

## Main results

* `polling_skips_nothing_iff` — no cursor moves backwards or past an effect that has not been
  enqueued, exactly if no group that goes through encloses one that will not be enqueued
-/

namespace Swyft.Horizon

open Checked Indexer

/-! ### Effects and their jobs -/

/-- `IndexerEffectRecord`. Paging tokens are compared, not computed with. -/
structure EffectRecord (τ : Type) where
  pagingToken : τ
  ledger : Option ℕ
  tick : Option Int32
  liquidity : Option String
  createdAt : String
  eventType : Option String
  eventId : Option String
  poolId : Option String
  tokenA : Option String
  tokenB : Option String
  fee : Option String
  sqrtPrice : Option String
  sender : Option String
  recipient : Option String
  amount0 : Option String
  amount1 : Option String
  owner : Option String
  tokenId : Option String
  tickLower : Option Int32
  tickUpper : Option Int32
  transactionHash : Option String
  deriving DecidableEq

variable {τ : Type}

/-- `eventType?.toLowerCase() ?? ''`, as characters. No letter outside ASCII has its lower case in
the names that it is compared with. -/
def EffectRecord.kind (r : EffectRecord τ) : List Char :=
  (r.eventType.getD "").toList.map Char.toLower

def EffectRecord.isPoolCreated (r : EffectRecord τ) : Bool := r.kind = "pool_created".toList

/-- The data of both kinds of position job. -/
def positionData (text : τ → String) (accountId : String) (r : EffectRecord τ) :
    PositionJobData where
  eventId := r.eventId.getD (text r.pagingToken)
  ledger := r.ledger
  poolId := r.poolId.getD accountId
  tokenId := r.tokenId.getD ""
  owner := r.owner.getD ""
  tickLower := r.tickLower.getD 0
  tickUpper := r.tickUpper.getD 0
  liquidity := r.liquidity.getD "0"
  amount0 := r.amount0.getD "0"
  amount1 := r.amount1.getD "0"

/-- The job that `batchEnqueueLedgerWindow` builds for an effect, if it builds one. -/
def jobData (text : τ → String) (accountId : String) (r : EffectRecord τ) : Option Event :=
  if r.kind = "pool_created".toList then
    let d : PoolCreatedJobData :=
      { eventId := r.eventId.getD (text r.pagingToken)
        ledger := r.ledger
        poolId := r.poolId.getD accountId
        tokenA := r.tokenA.getD ""
        tokenB := r.tokenB.getD ""
        fee := r.fee.getD "0"
        sqrtPriceX96 := r.sqrtPrice.getD "0"
        timestamp := none }
    if d.tokenA ≠ "" ∧ d.tokenB ≠ "" then some (.poolCreated d) else none
  else if r.kind = "swap_processed".toList then
    let d : SwapProcessedJobData :=
      { eventId := r.eventId.getD (text r.pagingToken)
        ledger := r.ledger
        poolId := r.poolId.getD accountId
        sender := r.sender.getD ""
        recipient := r.recipient.getD ""
        amount0 := r.amount0.getD "0"
        amount1 := r.amount1.getD "0"
        sqrtPriceX96 := r.sqrtPrice.getD "0"
        liquidity := r.liquidity.getD "0"
        tick := r.tick.getD 0
        transactionHash := r.transactionHash
        feeAmount := none
        timestamp := some r.createdAt }
    if d.sender ≠ "" ∧ d.recipient ≠ "" then some (.swapProcessed d) else none
  else if r.kind = "position_minted".toList then
    let d := positionData text accountId r
    if d.owner ≠ "" ∧ d.tokenId ≠ "" then some (.positionMinted d) else none
  else if r.kind = "position_burned".toList then
    let d := positionData text accountId r
    if d.owner ≠ "" ∧ d.tokenId ≠ "" then some (.positionBurned d) else none
  else if r.kind = "fees_collected".toList then
    let d : FeesCollectedJobData :=
      { eventId := r.eventId.getD (text r.pagingToken)
        ledger := r.ledger
        poolId := r.poolId.getD accountId
        recipient := r.recipient.getD ""
        amount0 := r.amount0.getD "0"
        amount1 := r.amount1.getD "0" }
    if d.recipient ≠ "" then some (.feesCollected d) else none
  else none

/-- A job that was added to its queue, with the effect it was built from. -/
structure Job (τ : Type) where
  account : String
  record : EffectRecord τ
  data : Event
  deriving DecidableEq

def jobs (text : τ → String) (accountId : String) (records : List (EffectRecord τ)) :
    List (Job τ) :=
  records.filterMap fun r => (jobData text accountId r).map (⟨accountId, r, ·⟩)

/-! ### Polls -/

/-- The service. The least cursor is `'now'`; an account is tracked if it has a cursor. What was
added to the queues and what Horizon delivered are kept for the record. -/
structure State (τ : Type) where
  cursors : String → Option (WithBot τ)
  added : List (Job τ)
  delivered : List (String × EffectRecord τ)

/-- The service once it has set the first cursors. -/
def State.start (cursors : String → Option (WithBot τ)) : State τ := ⟨cursors, [], []⟩

/-- `cursors.get(accountId) ?? 'now'`. -/
def State.cursor (s : State τ) (accountId : String) : WithBot τ := (s.cursors accountId).getD ⊥

/-- What becomes of the jobs that are handed to a queue, in one transaction. -/
inductive Bulk where
  | added
  /-- They are added, but the call fails. -/
  | unconfirmed
  | refused
  deriving DecidableEq

/-- What becomes of a group. -/
inductive Attempt where
  /-- A price cannot be published, once so many effects have been looked at. -/
  | priceFails (seen : ℕ)
  | enqueue (bulk : QueueName → Bulk)

/-- A poll of an account: the page that Horizon delivers and what becomes of each group. -/
structure Poll (τ : Type) where
  account : String
  page : List (EffectRecord τ)
  attempts : Option ℕ → Attempt

/-- A pool that is new is polled from where this page began. -/
def State.track (start : WithBot τ) (s : State τ) (r : EffectRecord τ) : State τ :=
  match r.poolId with
  | some poolId =>
    if r.isPoolCreated ∧ poolId ≠ "" ∧ (s.cursors poolId).isNone then
      { s with cursors := Function.update s.cursors poolId (some start) }
    else s
  | none => s

/-- `addBulk` on each queue. -/
def State.addBulk (s : State τ) (bulk : QueueName → Bulk) (js : List (Job τ)) : State τ :=
  { s with added := s.added ++ js.filter fun j => bulk j.data.queue ≠ .refused }

def State.setCursor (accountId : String) (s : State τ) (r : EffectRecord τ) : State τ :=
  { s with cursors := Function.update s.cursors accountId (some r.pagingToken) }

/-- Whether every queue that has jobs of the group adds them and says so. -/
def goesThrough (js : List (Job τ)) : Attempt → Bool
  | .priceFails _ => false
  | .enqueue bulk => js.all fun j => bulk j.data.queue = .added

/-- A group up to where the cursor is set, or where the poll fails. -/
def State.handle (text : τ → String) (accountId : String) (start : WithBot τ) (s : State τ)
    (records : List (EffectRecord τ)) : Attempt → State τ
  | .priceFails seen => (records.take seen).foldl (State.track start) s
  | .enqueue bulk =>
    (records.foldl (State.track start) s).addBulk bulk (jobs text accountId records)

/-- The groups in turn, until one fails, and the cursors that were set. -/
def pollGroups (text : τ → String) (accountId : String) (start : WithBot τ)
    (attempts : Option ℕ → Attempt) :
    State τ → List (Option ℕ × List (EffectRecord τ)) → State τ × List τ
  | s, [] => (s, [])
  | s, (ledger, records) :: groups =>
    let s' := s.handle text accountId start records (attempts ledger)
    if goesThrough (jobs text accountId records) (attempts ledger) then
      let (s'', written) := pollGroups text accountId start attempts
        (records.foldl (State.setCursor accountId) s') groups
      (s'', records.map (·.pagingToken) ++ written)
    else (s', [])

/-- `pollAccount`. -/
def State.pollAccount (text : τ → String) (s : State τ) (p : Poll τ) : State τ × List τ :=
  pollGroups text p.account (s.cursor p.account) p.attempts
    { s with delivered := s.delivered ++ p.page.map (p.account, ·) }
    (Grouping.grouped (·.ledger) p.page)

section Delivery

variable [LinearOrder τ]

/-- What Horizon may deliver: the effects of a tracked account after its cursor in the order of
their paging tokens, with those it delivered before in their places. -/
def State.Delivers (s : State τ) (p : Poll τ) : Prop :=
  (s.cursors p.account).isSome ∧
    (p.page.Pairwise fun r r' => r.pagingToken < r'.pagingToken) ∧
    (∀ r ∈ p.page, s.cursor p.account < r.pagingToken) ∧
    ∀ d ∈ s.delivered, d.1 = p.account → s.cursor p.account < d.2.pagingToken →
      (∃ r ∈ p.page, d.2.pagingToken ≤ r.pagingToken) → d.2 ∈ p.page

instance decidableDelivers (s : State τ) (p : Poll τ) : Decidable (s.Delivers p) :=
  inferInstanceAs (Decidable (_ ∧ _ ∧ _ ∧ _))

/-- A poll, if Horizon may deliver its page. -/
def exec (text : τ → String) (s : State τ) (p : Poll τ) : Except Unit (State τ × List τ) :=
  if s.Delivers p then .ok (s.pollAccount text p) else .error ()

end Delivery

/-! ### What a poll does -/

/-- The jobs that the queues have after an attempt. -/
def taken (js : List (Job τ)) : Attempt → List (Job τ)
  | .priceFails _ => []
  | .enqueue bulk => js.filter fun j => bulk j.data.queue ≠ .refused

/-- The groups that go through. -/
def Poll.completed (text : τ → String) (p : Poll τ) : List (Option ℕ × List (EffectRecord τ)) :=
  (Grouping.grouped (·.ledger) p.page).takeWhile fun g =>
    goesThrough (jobs text p.account g.2) (p.attempts g.1)

/-- The group in which the poll fails, and those it does not come to. -/
def Poll.remaining (text : τ → String) (p : Poll τ) : List (Option ℕ × List (EffectRecord τ)) :=
  (Grouping.grouped (·.ledger) p.page).dropWhile fun g =>
    goesThrough (jobs text p.account g.2) (p.attempts g.1)

section Groups

variable {text : τ → String} {accountId b : String} {start c : WithBot τ} {s : State τ}
  {r y z : EffectRecord τ} {e : Event} {records : List (EffectRecord τ)}
  {attempts : Option ℕ → Attempt} {groups : List (Option ℕ × List (EffectRecord τ))} {p : Poll τ}

theorem mem_jobs : (⟨b, y, e⟩ : Job τ) ∈ jobs text accountId records ↔
    b = accountId ∧ y ∈ records ∧ jobData text accountId y = some e := by
  simp only [jobs, List.mem_filterMap, Option.map_eq_some_iff, Job.mk.injEq]
  constructor
  · rintro ⟨r, hr, d, hd, rfl, rfl, rfl⟩
    exact ⟨rfl, hr, hd⟩
  · rintro ⟨rfl, hy, he⟩
    exact ⟨y, hy, e, he, rfl, rfl, rfl⟩

theorem track_cursors (h : s.cursors b = some c) : (s.track start r).cursors b = some c := by
  unfold State.track
  split
  · split
    · rename_i hnew
      refine (Function.update_of_ne ?_ ..).trans h
      rintro rfl
      simp [h] at hnew
    · exact h
  · exact h

theorem track_rest :
    (s.track start r).added = s.added ∧ (s.track start r).delivered = s.delivered := by
  unfold State.track
  split
  · split <;> exact ⟨rfl, rfl⟩
  · exact ⟨rfl, rfl⟩

theorem foldl_track_cursors (h : s.cursors b = some c) :
    (records.foldl (State.track start) s).cursors b = some c := by
  induction records generalizing s with
  | nil => exact h
  | cons r records ih => exact ih (track_cursors h)

theorem foldl_track_rest :
    (records.foldl (State.track start) s).added = s.added ∧
      (records.foldl (State.track start) s).delivered = s.delivered := by
  induction records generalizing s with
  | nil => exact ⟨rfl, rfl⟩
  | cons r records ih => exact ⟨ih.1.trans track_rest.1, ih.2.trans track_rest.2⟩

theorem handle_cursors {a : Attempt} (h : s.cursors b = some c) :
    (s.handle text accountId start records a).cursors b = some c := by
  cases a with
  | priceFails seen => exact foldl_track_cursors h
  | enqueue bulk => exact foldl_track_cursors h

theorem handle_rest {a : Attempt} :
    (s.handle text accountId start records a).added =
        s.added ++ taken (jobs text accountId records) a ∧
      (s.handle text accountId start records a).delivered = s.delivered := by
  cases a with
  | priceFails seen => simpa [State.handle, taken] using foldl_track_rest
  | enqueue bulk => simp [State.handle, State.addBulk, taken, foldl_track_rest]

theorem foldl_setCursor_rest :
    (records.foldl (State.setCursor accountId) s).added = s.added ∧
      (records.foldl (State.setCursor accountId) s).delivered = s.delivered := by
  induction records generalizing s with
  | nil => exact ⟨rfl, rfl⟩
  | cons r records ih => exact ih

theorem foldl_setCursor_of_ne (h : b ≠ accountId) :
    (records.foldl (State.setCursor accountId) s).cursors b = s.cursors b := by
  induction records generalizing s with
  | nil => rfl
  | cons r records ih => exact ih.trans (Function.update_of_ne h ..)

/-- The last of the cursors that are set stays. -/
def lastCursor (c : WithBot τ) (written : List τ) : WithBot τ := written.foldl (fun _ t => t) c

theorem foldl_setCursor (h : s.cursors accountId = some c) :
    (records.foldl (State.setCursor accountId) s).cursors accountId =
      some (lastCursor c (records.map (·.pagingToken))) := by
  induction records generalizing s c with
  | nil => exact h
  | cons r records ih => exact ih (Function.update_self ..)

theorem taken_of_goesThrough {js : List (Job τ)} {a : Attempt} (h : goesThrough js a) :
    taken js a = js := by
  cases a with
  | priceFails seen => exact absurd h (by simp [goesThrough])
  | enqueue bulk =>
    refine List.filter_eq_self.mpr fun j hj => ?_
    have hbulk := List.all_eq_true.mp h j hj
    rw [decide_eq_true_eq] at hbulk
    rw [hbulk]
    rfl

theorem pollGroups_written :
    (pollGroups text accountId start attempts s groups).2 =
      ((groups.takeWhile fun g => goesThrough (jobs text accountId g.2) (attempts g.1)).flatMap
        (·.2)).map (·.pagingToken) := by
  induction groups generalizing s with
  | nil => rfl
  | cons g groups ih =>
    simp only [pollGroups, List.takeWhile_cons]
    split
    · simp [ih]
    · rfl

theorem pollGroups_cursor (h : s.cursors accountId = some c) :
    (pollGroups text accountId start attempts s groups).1.cursors accountId =
      some (lastCursor c (pollGroups text accountId start attempts s groups).2) := by
  induction groups generalizing s c with
  | nil => exact h
  | cons g groups ih =>
    simp only [pollGroups]
    split
    · rw [ih (foldl_setCursor (handle_cursors h))]
      simp [lastCursor]
    · exact handle_cursors h

theorem pollGroups_cursor_of_ne (hb : b ≠ accountId) (h : s.cursors b = some c) :
    (pollGroups text accountId start attempts s groups).1.cursors b = some c := by
  induction groups generalizing s with
  | nil => exact h
  | cons g groups ih =>
    simp only [pollGroups]
    split
    · exact ih ((foldl_setCursor_of_ne hb).trans (handle_cursors h))
    · exact handle_cursors h

theorem pollGroups_delivered :
    (pollGroups text accountId start attempts s groups).1.delivered = s.delivered := by
  induction groups generalizing s with
  | nil => rfl
  | cons g groups ih =>
    simp only [pollGroups]
    split
    · rw [ih, foldl_setCursor_rest.2, handle_rest.2]
    · exact handle_rest.2

theorem pollGroups_added :
    (pollGroups text accountId start attempts s groups).1.added =
      s.added
        ++ (groups.takeWhile fun g =>
            goesThrough (jobs text accountId g.2) (attempts g.1)).flatMap
          (fun g => jobs text accountId g.2)
        ++ (groups.dropWhile fun g =>
            goesThrough (jobs text accountId g.2) (attempts g.1)).head?.elim []
          (fun g => taken (jobs text accountId g.2) (attempts g.1)) := by
  induction groups generalizing s with
  | nil => simp [pollGroups]
  | cons g groups ih =>
    simp only [pollGroups, List.takeWhile_cons, List.dropWhile_cons]
    split
    · rename_i hthrough
      rw [ih, foldl_setCursor_rest.1, handle_rest.1, taken_of_goesThrough hthrough]
      simp
    · simp [handle_rest.1]

theorem completed_append_remaining :
    Grouping.grouped (·.ledger) p.page = p.completed text ++ p.remaining text :=
  List.takeWhile_append_dropWhile.symm

theorem mem_completed (hz : z ∈ (p.completed text).flatMap (·.2)) :
    z ∈ p.page :=
  ((Grouping.mem_flatMap_done completed_append_remaining).mp hz).1

theorem pollAccount_written : (s.pollAccount text p).2 =
    ((p.completed text).flatMap (·.2)).map (·.pagingToken) :=
  pollGroups_written

theorem pollAccount_cursor (h : s.cursors p.account = some c) :
    (s.pollAccount text p).1.cursors p.account = some (lastCursor c (s.pollAccount text p).2) :=
  pollGroups_cursor h

theorem pollAccount_cursor_of_ne (hb : b ≠ p.account) (h : s.cursors b = some c) :
    (s.pollAccount text p).1.cursors b = some c :=
  pollGroups_cursor_of_ne hb h

theorem pollAccount_delivered :
    (s.pollAccount text p).1.delivered = s.delivered ++ p.page.map (p.account, ·) :=
  pollGroups_delivered

theorem pollAccount_added_mono {j : Job τ} (h : j ∈ s.added) :
    j ∈ (s.pollAccount text p).1.added := by
  rw [State.pollAccount, pollGroups_added]
  exact List.mem_append_left _ (List.mem_append_left _ h)

/-- The queue of the job has it although the poll fails in the group of its effect. -/
def Poll.Keeps (text : τ → String) (p : Poll τ) (y : EffectRecord τ) (e : Event) : Prop :=
  (p.remaining text).head?.map (·.1) = some y.ledger ∧
    ∃ bulk, p.attempts y.ledger = .enqueue bulk ∧ bulk e.queue ≠ .refused

/-- The job of an effect of the page is in its queue after the poll if it was before, if its group
goes through, or if its queue keeps it. -/
theorem mem_pollAccount_added (hy : y ∈ p.page) (he : jobData text p.account y = some e) :
    ⟨p.account, y, e⟩ ∈ (s.pollAccount text p).1.added ↔
      ⟨p.account, y, e⟩ ∈ s.added ∨ y.ledger ∈ (p.completed text).map (·.1) ∨ p.Keeps text y e := by
  have hgroup : ∀ g ∈ p.completed text ++ p.remaining text, (y ∈ g.2 ↔ g.1 = y.ledger) := by
    intro g hg
    rw [← completed_append_remaining] at hg
    rw [((Grouping.mem_grouped p.page).mp hg).2, List.mem_filter, decide_eq_true_eq]
    exact and_iff_right hy
  have hcompleted : (⟨p.account, y, e⟩ : Job τ) ∈
      (p.completed text).flatMap (fun g => jobs text p.account g.2) ↔
        y.ledger ∈ (p.completed text).map (·.1) := by
    simp only [List.mem_flatMap, List.mem_map, mem_jobs, he, and_true, true_and]
    exact exists_congr fun g => and_congr_right fun hg => hgroup g (List.mem_append_left _ hg)
  have hkeeps : (⟨p.account, y, e⟩ : Job τ) ∈
      (p.remaining text).head?.elim []
        (fun g => taken (jobs text p.account g.2) (p.attempts g.1)) ↔ p.Keeps text y e := by
    unfold Poll.Keeps
    cases hrest : p.remaining text with
    | nil => simp
    | cons g groups =>
      have hg := hgroup g (List.mem_append_right _ (hrest ▸ List.mem_cons_self))
      simp only [List.head?_cons, Option.elim_some, Option.map_some, Option.some.injEq]
      by_cases hkey : g.1 = y.ledger
      · rw [← hkey]
        cases p.attempts g.1 with
        | priceFails seen => simp [taken]
        | enqueue bulk => simp [taken, mem_jobs, he, hg.mpr hkey]
      · refine iff_of_false (fun hin => hkey (hg.mp ?_)) fun h => hkey h.1
        cases hattempt : p.attempts g.1 with
        | priceFails seen => simp [hattempt, taken] at hin
        | enqueue bulk =>
          rw [hattempt] at hin
          exact (mem_jobs.mp (List.mem_of_mem_filter hin)).2.1
  rw [State.pollAccount, pollGroups_added, List.mem_append, List.mem_append, or_assoc]
  exact or_congr_right (or_congr hcompleted hkeeps)

/-- What was delivered was delivered to a tracked account. -/
def State.Tracks (s : State τ) : Prop := ∀ d ∈ s.delivered, (s.cursors d.1).isSome

theorem tracks_pollAccount (htracks : s.Tracks) (hp : (s.cursors p.account).isSome) :
    (s.pollAccount text p).1.Tracks := by
  intro d hd
  rw [pollAccount_delivered, List.mem_append, List.mem_map] at hd
  have htracked : ∀ b, (s.cursors b).isSome → ((s.pollAccount text p).1.cursors b).isSome := by
    intro b hb
    obtain ⟨c, hc⟩ := Option.isSome_iff_exists.mp hb
    by_cases hbp : b = p.account
    · subst hbp
      simp [pollAccount_cursor hc]
    · simp [pollAccount_cursor_of_ne hbp hc]
  rcases hd with hd | ⟨y, -, rfl⟩
  · exact htracked _ (htracks d hd)
  · exact htracked _ hp

end Groups

/-! ### Nothing is skipped -/

section Guarantee

variable [LinearOrder τ] {text : τ → String} {s s' : State τ} {p : Poll τ} {c x : WithBot τ}
  {written : List τ}

/-- Every effect that was delivered and is not after its account's cursor has its job in a queue,
if it makes one. -/
def State.SkipsNothing (text : τ → String) (s : State τ) : Prop :=
  ∀ d ∈ s.delivered, ∀ c, s.cursors d.1 = some c → (d.2.pagingToken : WithBot τ) ≤ c →
    ∀ e, jobData text d.1 d.2 = some e → ⟨d.1, d.2, e⟩ ∈ s.added

/-- A poll sets no cursor back, and afterwards nothing has been skipped. -/
def Good (text : τ → String) (s : State τ) (p : Poll τ) : Prop :=
  Ensures (exec text s p) fun (s', written) =>
    (s.cursor p.account :: written.map (WithBot.some ·)).Pairwise (· ≤ ·) ∧
      (∀ b c, s.cursors b = some c → ∃ c', s'.cursors b = some c' ∧ c ≤ c') ∧
        s'.SkipsNothing text

/-- No group that goes through encloses an effect, unless the group of the enclosed effect does
not go through and its job, if it makes one, is in its queue all the same. -/
def EnclosesNothing (text : τ → String) (s : State τ) (p : Poll τ) : Prop :=
  s.Delivers p → ∀ x ∈ p.page, ∀ y ∈ p.page, ∀ z ∈ p.page,
    x.pagingToken < y.pagingToken → y.pagingToken < z.pagingToken →
    x.ledger = z.ledger → y.ledger ≠ x.ledger → x.ledger ∈ (p.completed text).map (·.1) →
    y.ledger ∉ (p.completed text).map (·.1) ∧ ∀ e, jobData text p.account y = some e →
      ⟨p.account, y, e⟩ ∈ s.added ∨ p.Keeps text y e

theorem le_lastCursor (h : (c :: written.map (WithBot.some ·)).Pairwise (· ≤ ·)) :
    x ≤ lastCursor c written ↔ x ≤ c ∨ ∃ t ∈ written, x ≤ t := by
  induction written generalizing c with
  | nil => simp [lastCursor]
  | cons t written ih =>
    rw [List.map_cons, List.pairwise_cons] at h
    have hct : c ≤ t := h.1 _ (.head _)
    refine (ih h.2).trans ?_
    simp only [List.mem_cons, exists_eq_or_imp]
    constructor
    · exact .inr
    · rintro (hx | hx)
      · exact .inl (hx.trans hct)
      · exact hx

/-- The effects that a poll passes. -/
theorem le_pollAccount_cursor (hc : s.cursors p.account = some c)
    (h : (c :: (s.pollAccount text p).2.map (WithBot.some ·)).Pairwise (· ≤ ·)) :
    (∃ c', (s.pollAccount text p).1.cursors p.account = some c' ∧ x ≤ c') ↔
      x ≤ c ∨ ∃ z ∈ (p.completed text).flatMap (·.2), x ≤ z.pagingToken := by
  rw [pollAccount_cursor hc]
  simp only [Option.some.injEq, exists_eq_left', le_lastCursor h]
  rw [pollAccount_written]
  simp

/-- What a poll that sets no cursor back skips, it skips of its own page. -/
theorem skipsNothing_iff (hp : s.Delivers p) (htracks : s.Tracks) (hs : s.SkipsNothing text)
    (hc : s.cursors p.account = some c)
    (h : (c :: (s.pollAccount text p).2.map (WithBot.some ·)).Pairwise (· ≤ ·)) :
    (s.pollAccount text p).1.SkipsNothing text ↔
      ∀ y ∈ p.page, y.ledger ∉ (p.completed text).map (·.1) →
        (∃ z ∈ (p.completed text).flatMap (·.2), y.pagingToken ≤ z.pagingToken) →
        ∀ e, jobData text p.account y = some e →
          ⟨p.account, y, e⟩ ∈ s.added ∨ p.Keeps text y e := by
  have hcursor : s.cursor p.account = c := by simp [State.cursor, hc]
  constructor
  · intro hskips y hy hleft ⟨z, hz, hyz⟩ e he
    obtain ⟨c', hc', hle⟩ := (le_pollAccount_cursor hc h (x := y.pagingToken)).mpr
      (.inr ⟨z, hz, WithBot.coe_le_coe.mpr hyz⟩)
    have hdelivered : (p.account, y) ∈ (s.pollAccount text p).1.delivered := by
      rw [pollAccount_delivered]
      exact List.mem_append_right _ (List.mem_map_of_mem hy)
    rcases (mem_pollAccount_added hy he).mp (hskips _ hdelivered c' hc' hle e he)
      with hold | hin | hkeeps
    · exact .inl hold
    · exact absurd hin hleft
    · exact .inr hkeeps
  · intro hpage
    -- an effect of the page that is passed
    have hnew : ∀ y ∈ p.page,
        (∃ z ∈ (p.completed text).flatMap (·.2),
          (y.pagingToken : WithBot τ) ≤ z.pagingToken) →
        ∀ e, jobData text p.account y = some e →
          ⟨p.account, y, e⟩ ∈ (s.pollAccount text p).1.added := by
      intro y hy ⟨z, hz, hyz⟩ e he
      rw [mem_pollAccount_added hy he]
      by_cases hin : y.ledger ∈ (p.completed text).map (·.1)
      · exact .inr (.inl hin)
      · rcases hpage y hy hin ⟨z, hz, WithBot.coe_le_coe.mp hyz⟩ e he with hold | hkeeps
        · exact .inl hold
        · exact .inr (.inr hkeeps)
    intro ⟨b, y⟩ hd c' hc' hle e he
    rw [pollAccount_delivered, List.mem_append] at hd
    by_cases hb : b = p.account
    · subst hb
      rcases (le_pollAccount_cursor hc h).mp ⟨c', hc', hle⟩ with hyc | ⟨z, hz, hyz⟩
      · rcases hd with hd | hd
        · exact pollAccount_added_mono (hs _ hd c hc hyc e he)
        · obtain ⟨y', hy', heq⟩ := List.mem_map.mp hd
          obtain ⟨-, rfl⟩ := Prod.mk.inj heq
          exact absurd hyc (not_le_of_gt (hcursor ▸ hp.2.2.1 y' hy'))
      · rcases hd with hd | hd
        · by_cases hyc : (y.pagingToken : WithBot τ) ≤ c
          · exact pollAccount_added_mono (hs _ hd c hc hyc e he)
          · -- it was delivered before, and is in its place again
            have hagain := hp.2.2.2 _ hd rfl (hcursor ▸ lt_of_not_ge hyc)
              ⟨z, mem_completed hz, WithBot.coe_le_coe.mp hyz⟩
            exact hnew y hagain ⟨z, hz, hyz⟩ e he
        · obtain ⟨y', hy', heq⟩ := List.mem_map.mp hd
          obtain ⟨-, rfl⟩ := Prod.mk.inj heq
          exact hnew y' hy' ⟨z, hz, hyz⟩ e he
    · rcases hd with hd | hd
      · obtain ⟨c₀, hc₀⟩ := Option.isSome_iff_exists.mp (htracks _ hd)
        rw [pollAccount_cursor_of_ne hb hc₀, Option.some.injEq] at hc'
        exact pollAccount_added_mono (hs _ hd c₀ hc₀ (hc' ▸ hle) e he)
      · obtain ⟨y', -, heq⟩ := List.mem_map.mp hd
        exact absurd (Prod.mk.inj heq).1.symm hb

theorem ascending_iff (habove : ∀ r ∈ p.page, c < r.pagingToken) :
    (c :: (s.pollAccount text p).2.map (WithBot.some ·)).Pairwise (· ≤ ·) ↔
      ((p.completed text).flatMap (·.2)).Pairwise
        fun r r' => r.pagingToken ≤ r'.pagingToken := by
  rw [pollAccount_written, List.pairwise_cons, List.map_map, List.pairwise_map]
  simp only [Function.comp_apply, WithBot.coe_le_coe]
  refine and_iff_right fun t ht => ?_
  obtain ⟨r, hr, rfl⟩ := List.mem_map.mp ht
  exact le_of_lt (habove r (mem_completed hr))

theorem cursors_mono (h : (s.cursor p.account :: (s.pollAccount text p).2.map
    (WithBot.some ·)).Pairwise (· ≤ ·)) {b : String} (hb : s.cursors b = some c) :
    ∃ c', (s.pollAccount text p).1.cursors b = some c' ∧ c ≤ c' := by
  by_cases hbp : b = p.account
  · subst hbp
    have hcursor : s.cursor p.account = c := by simp [State.cursor, hb]
    exact (le_pollAccount_cursor hb (hcursor ▸ h)).mpr (.inl le_rfl)
  · exact ⟨c, pollAccount_cursor_of_ne hbp hb, le_rfl⟩

theorem good_iff (htracks : s.Tracks) (hs : s.SkipsNothing text) :
    Good text s p ↔ EnclosesNothing text s p := by
  by_cases hp : s.Delivers p
  · obtain ⟨c, hc⟩ := Option.isSome_iff_exists.mp hp.1
    have hcursor : s.cursor p.account = c := by simp [State.cursor, hc]
    have hgroups : Grouping.grouped (·.ledger) p.page = p.completed text ++ p.remaining text :=
      completed_append_remaining
    have hordered := Grouping.ordered_iff hp.2.1 hgroups fun y =>
        ∀ e, jobData text p.account y = some e → ⟨p.account, y, e⟩ ∈ s.added ∨ p.Keeps text y e
    rw [Good, exec, if_pos hp, EnclosesNothing, forall_prop_of_true hp, ← hordered,
      ← ascending_iff (s := s) (c := c) (hcursor ▸ hp.2.2.1)]
    refine Iff.trans (b := _ ∧ (s.pollAccount text p).1.SkipsNothing text) ?_
      (and_congr_right fun h => skipsNothing_iff hp htracks hs hc h)
    rw [← hcursor]
    exact and_congr_right fun h => and_iff_right fun b c hb => cursors_mono h hb
  · rw [Good, exec, if_neg hp, EnclosesNothing, forall_prop_of_false hp]
    exact iff_of_true trivial trivial

/-- A poll after which nothing has been skipped keeps what the next one rests on. -/
theorem invariant_exec (htracks : s.Tracks) (hgood : Good text s p)
    (h : exec text s p = .ok (s', written)) : s'.Tracks ∧ s'.SkipsNothing text := by
  refine ⟨?_, (hgood.of_ok h).2.2⟩
  unfold exec at h
  split at h
  · rename_i hp
    obtain rfl : (s.pollAccount text p).1 = s' := congrArg Prod.fst (Except.ok.inj h)
    exact tracks_pollAccount htracks hp.1
  · cases h

/-- **Polling skips nothing.** In a run from any cursors, with any pages that Horizon may deliver
and any failures, no cursor is set back and none passes an effect whose job is in no queue,
exactly if no group that goes through ever encloses an effect whose own group fails without adding
its job, or goes through later. -/
theorem polling_skips_nothing_iff (text : τ → String) (cursors : String → Option (WithBot τ))
    (polls : List (Poll τ)) :
    Along (exec text) (Good text) (State.start cursors) polls ↔
      Along (exec text) (EnclosesNothing text) (State.start cursors) polls := by
  have hstart : (State.start cursors).Tracks ∧ (State.start cursors).SkipsNothing text :=
    ⟨List.forall_mem_nil _, List.forall_mem_nil _⟩
  constructor
  · refine fun h => h.imp_of_invariant (I := fun s => s.Tracks ∧ s.SkipsNothing text)
      (fun s p s' w hs hgood hexec => invariant_exec hs.1 hgood hexec)
      (fun s p hs hgood => (good_iff hs.1 hs.2).mp hgood) hstart
  · refine fun h => h.imp_of_invariant (I := fun s => s.Tracks ∧ s.SkipsNothing text)
      (fun s p s' w hs hsafe hexec => invariant_exec hs.1 ((good_iff hs.1 hs.2).mpr hsafe) hexec)
      (fun s p hs hsafe => (good_iff hs.1 hs.2).mpr hsafe) hstart

/-- A swap, with its ledger or without. -/
def swapEffect (token : ℕ) (ledger : Option ℕ) : EffectRecord ℕ where
  pagingToken := token
  ledger
  tick := none
  liquidity := none
  createdAt := ""
  eventType := some "swap_processed"
  eventId := none
  poolId := none
  tokenA := none
  tokenB := none
  fee := none
  sqrtPrice := none
  sender := some "s"
  recipient := some "r"
  amount0 := none
  amount1 := none
  owner := none
  tokenId := none
  tickLower := none
  tickUpper := none
  transactionHash := none

/-- A page on which the group of ledger five encloses a swap without a ledger. The jobs of the
ledger are added, that of the swap without one is refused. -/
def enclosing : Poll ℕ where
  account := "pool"
  page := [swapEffect 1 (some 5), swapEffect 2 none, swapEffect 3 (some 5)]
  attempts := fun ledger => .enqueue fun _ => if ledger = some 5 then .added else .refused

/-- The cursor is then at the third swap, and no poll asks for the second one again. -/
theorem enclosed_swap_skipped :
    ¬ Along (exec toString) (Good toString)
      (State.start fun account => if account = "pool" then some ⊥ else none) [enclosing] := by
  intro h
  have hgood := h.1
  rw [Good, exec, if_pos (by decide)] at hgood
  have hadded := hgood.2.2 ("pool", swapEffect 2 none) (by decide) (3 : ℕ) (by rfl) (by decide)
    _ rfl
  revert hadded
  decide

end Guarantee

end Swyft.Horizon
