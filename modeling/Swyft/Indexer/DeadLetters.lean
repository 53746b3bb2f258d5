import Swyft.Indexer.Model
import Mathlib.Data.List.Infix
import Mathlib.Data.List.Nodup
import Mathlib.Data.List.Perm.Subperm

/-!
# Replaying dead letters

`replayDeadLetters` of `apps/api/src/indexer/indexer-replay.service.ts`, with the dead-letter table
of `indexer-dead-letter.service.ts`. A job that failed too often has a row in the table; a replay
adds a job for the row's payload to its queue again and marks the row as recovered.

The replayed job has an identifier made from the row's. A queue that still stores a job under an
identifier, waiting or failed, does not add another one and does not say so.

`JSON.parse` is the parameter `parse`, which finds no value where it throws.

## What is deliberately absent

A row's error, its attempts and its times: rows stand in the order in which the query returns
them, the newest first. The workers do not run meanwhile.

## Main results

* `replay_complete_iff` — every row is replayed or reported as skipped, exactly if there are no
  more than five hundred and no job is stored under the identifier of a replayed one
* `replay_accounts` — what a replay says of the rows it comes to, and that it touches no others
-/

namespace Swyft.Indexer

open Checked

/-! ### The table and the queues -/

/-- A value that `JSON.parse` returns. -/
inductive Json where
  | null
  | bool (b : Bool)
  | number (text : String)
  | string (s : String)
  | array (items : List Json)
  | object (fields : List (String × Json))

/-- `data.eventId` if that is a string, else the empty text. -/
def Json.eventId : Json → String
  | .object fields =>
    match fields.lookup "eventId" with
    | some (.string s) => s
    | _ => ""
  | _ => ""

/-- A row of the dead-letter table. -/
structure DeadLetter where
  jobId : String
  queueName : String
  eventId : String
  data : String
  recovered : Bool

structure DeadLetterEntry where
  jobId : String
  queueName : String
  eventId : String
  data : Json

inductive JobState where
  | waiting | delayed | active | failed

structure StoredJob where
  name : String
  data : Json
  state : JobState

/-- The table, with its unique key, and the jobs that each queue stores by identifier. -/
structure ReplayStore where
  rows : List DeadLetter
  unique : (rows.map (·.jobId)).Nodup
  queues : QueueName → String → Option StoredJob

/-- `QUEUE_NAMES`. -/
def QueueName.text : QueueName → String
  | .poolCreated => "pool.created"
  | .swapProcessed => "swap.processed"
  | .positionMinted => "position.minted"
  | .positionBurned => "position.burned"
  | .feesCollected => "fees.collected"

/-- The queue of a name, one of the five cases of `enqueueDeadLetter`. -/
def queueOf (name : String) : Option QueueName :=
  [.poolCreated, .swapProcessed, .positionMinted, .positionBurned, .feesCollected].find?
    fun q : QueueName => q.text = name

/-- What the database and the queues answer: whether the table can be read, the message with which
the addition of a job fails, whether a row can be updated. -/
structure Calls where
  reads : Bool
  addFails : String → Option String
  clears : String → Bool

/-- Every call succeeds. -/
def Calls.succeed : Calls := ⟨true, fun _ => none, fun _ => true⟩

inductive ReplayError where
  | notFound
  | storeUnavailable
  | typeError

/-! ### Reading and clearing rows -/

section Rows

variable (parse : String → Option Json)

/-- `toEntry`. A payload that does not parse is read as an empty one. -/
def toEntry (row : DeadLetter) : DeadLetterEntry where
  jobId := row.jobId
  queueName := row.queueName
  eventId := row.eventId
  data := (parse row.data).getD (.object [])

/-- `getDeadLetters`, failing closed. -/
def getDeadLetters (calls : Calls) (s : ReplayStore) (queueName : Option String) (limit : ℕ)
    (unrecoveredOnly : Bool) : Except ReplayError (List DeadLetterEntry) :=
  if calls.reads then
    .ok (((s.rows.filter fun row =>
      queueName.all (· = row.queueName) && !(unrecoveredOnly && row.recovered)).take limit).map
        (toEntry parse))
  else .error .storeUnavailable

/-- `loadSingleDeadLetter`. -/
def loadSingleDeadLetter (calls : Calls) (s : ReplayStore) (jobId : String) :
    Except ReplayError (List DeadLetterEntry) :=
  if calls.reads then
    match s.rows.find? (·.jobId = jobId) with
    | some row => .ok [toEntry parse row]
    | none => .error .notFound
  else .error .storeUnavailable

end Rows

def DeadLetter.clear (jobId : String) (row : DeadLetter) : DeadLetter :=
  if row.jobId = jobId then { row with recovered := true } else row

@[simp] theorem DeadLetter.clear_jobId (jobId : String) (row : DeadLetter) :
    (row.clear jobId).jobId = row.jobId := by
  unfold DeadLetter.clear
  split <;> rfl

/-- `clearDeadLetter`. A failure is logged. -/
def clearDeadLetter (calls : Calls) (s : ReplayStore) (jobId : String) : ReplayStore :=
  if calls.clears jobId then
    { s with
      rows := s.rows.map (·.clear jobId)
      unique := by
        rw [List.map_map]
        simpa [Function.comp_def] using s.unique }
  else s

/-! ### Replaying -/

/-- The identifier of the replayed job. -/
def replayId (jobId : String) : String := "dlq-replay:" ++ jobId

/-- `Queue.add` with an identifier: a job that is stored stays, and none is added. -/
def ReplayStore.add (s : ReplayStore) (q : QueueName) (id : String) (job : StoredJob) :
    ReplayStore :=
  match s.queues q id with
  | some _ => s
  | none =>
    { s with queues := Function.update s.queues q (Function.update (s.queues q) id (some job)) }

theorem ReplayStore.add_rows {s : ReplayStore} {q : QueueName} {id : String} {job : StoredJob} :
    (s.add q id job).rows = s.rows := by
  unfold ReplayStore.add
  split <;> rfl

theorem ReplayStore.add_queues {s : ReplayStore} {q q' : QueueName} {id id' : String}
    {job : StoredJob} : (s.add q id job).queues q' id' =
      if q' = q ∧ id' = id then some ((s.queues q id).getD job) else s.queues q' id' := by
  unfold ReplayStore.add
  cases hstored : s.queues q id with
  | some old =>
    by_cases h : q' = q ∧ id' = id
    · simp [h, hstored]
    · simp [h]
  | none =>
    by_cases hq : q' = q
    · subst hq
      by_cases hid : id' = id
      · subst hid
        simp
      · simp [hid]
    · simp [hq]

/-- `/already exists|Job with this? id/i.test(message)`. -/
def isDuplicateMessage (message : String) : Bool :=
  let text := message.toList.map Char.toLower
  ["already exists", "job with this id", "job with thi id"].any fun words =>
    words.toList <:+: text

/-- The name of the replayed job. -/
def DeadLetterEntry.jobName (entry : DeadLetterEntry) : String :=
  if entry.data.eventId ≠ "" then entry.data.eventId else entry.eventId

/-- `enqueueDeadLetter`. The payload `null` has no property `eventId` to read. -/
def enqueueDeadLetter (calls : Calls) (s : ReplayStore) (entry : DeadLetterEntry) :
    Except ReplayError (ReplayStore × Bool) :=
  match entry.data with
  | .null => .error .typeError
  | data =>
    if entry.jobName = "" then .ok (s, false)
    else
      match queueOf entry.queueName with
      | none => .ok (s, isDuplicateMessage ("Unsupported DLQ queueName: " ++ entry.queueName))
      | some q =>
        match calls.addFails (replayId entry.jobId) with
        | some message => .ok (s, isDuplicateMessage message)
        | none => .ok (s.add q (replayId entry.jobId) ⟨entry.jobName, data, .waiting⟩, true)

/-- `DeadLetterReplaySummary`, whose `total` is the number of those replayed. -/
structure DeadLetterReplaySummary where
  replayed : List String
  skipped : List String

/-- The loop of `replayDeadLetters`. -/
def replayEntries (calls : Calls) : ReplayStore → List DeadLetterEntry →
    Except ReplayError (ReplayStore × DeadLetterReplaySummary)
  | s, [] => .ok (s, ⟨[], []⟩)
  | s, entry :: entries => do
    let (s', ok) ← enqueueDeadLetter calls s entry
    if ok then
      let (s'', summary) ← replayEntries calls (clearDeadLetter calls s' entry.jobId) entries
      .ok (s'', { summary with replayed := entry.jobId :: summary.replayed })
    else
      let (s'', summary) ← replayEntries calls s' entries
      .ok (s'', { summary with skipped := entry.jobId :: summary.skipped })

/-- `replayDeadLetters`. Without an identifier, or with an empty one, it reads a page of rows. -/
def replayDeadLetters (parse : String → Option Json) (calls : Calls) (s : ReplayStore)
    (jobId : Option String) : Except ReplayError (ReplayStore × DeadLetterReplaySummary) := do
  let entries ← match jobId.filter (· ≠ "") with
    | some id => loadSingleDeadLetter parse calls s id
    | none => getDeadLetters parse calls s none 500 true
  replayEntries calls s entries

/-! ### What a replay does -/

section Replay

variable {parse : String → Option Json} {s s' : ReplayStore} {entry : DeadLetterEntry}
  {entries : List DeadLetterEntry} {summary : DeadLetterReplaySummary} {q q' : QueueName}
  {id id' : String} {job : StoredJob}

/-- What becomes of an entry while every call succeeds. -/
inductive Verdict where
  | throws
  | skipped
  /-- Its queue is asked to add the job. -/
  | asks (q : QueueName)
  /-- It is taken for replayed because its queue's name reads like the message about a duplicate. -/
  | mistaken
  deriving DecidableEq

def DeadLetterEntry.verdict (entry : DeadLetterEntry) : Verdict :=
  match entry.data with
  | .null => .throws
  | _ =>
    if entry.jobName = "" then .skipped
    else
      match queueOf entry.queueName with
      | some q => .asks q
      | none =>
        if isDuplicateMessage ("Unsupported DLQ queueName: " ++ entry.queueName) then .mistaken
        else .skipped

/-- An entry that is reported as replayed. -/
def DeadLetterEntry.reported (entry : DeadLetterEntry) : Bool :=
  entry.verdict ≠ .throws ∧ entry.verdict ≠ .skipped

/-- The table and the queues after an entry. -/
def ReplayStore.replay (s : ReplayStore) (entry : DeadLetterEntry) : ReplayStore :=
  match entry.verdict with
  | .throws | .skipped => s
  | .asks q =>
    clearDeadLetter .succeed (s.add q (replayId entry.jobId) ⟨entry.jobName, entry.data, .waiting⟩)
      entry.jobId
  | .mistaken => clearDeadLetter .succeed s entry.jobId

theorem enqueueDeadLetter_succeed :
    enqueueDeadLetter .succeed s entry =
      match entry.verdict with
      | .throws => .error .typeError
      | .skipped => .ok (s, false)
      | .asks q =>
        .ok (s.add q (replayId entry.jobId) ⟨entry.jobName, entry.data, .waiting⟩, true)
      | .mistaken => .ok (s, true) := by
  unfold enqueueDeadLetter DeadLetterEntry.verdict
  split
  · rfl
  · by_cases hname : entry.jobName = ""
    · simp [hname]
    · cases hq : queueOf entry.queueName with
      | some q => simp [hname, Calls.succeed]
      | none =>
        simp only [if_neg hname]
        cases isDuplicateMessage ("Unsupported DLQ queueName: " ++ entry.queueName) <;> rfl

theorem replayEntries_succeed :
    replayEntries .succeed s entries =
      if entries.any (·.verdict = .throws) then .error .typeError
      else .ok (entries.foldl ReplayStore.replay s,
        ⟨(entries.filter (·.reported)).map (·.jobId),
          (entries.filter fun e => !e.reported).map (·.jobId)⟩) := by
  induction entries generalizing s with
  | nil => rfl
  | cons entry entries ih =>
    rw [replayEntries, enqueueDeadLetter_succeed, List.any_cons, List.foldl_cons]
    cases hverdict : entry.verdict with
    | throws => rfl
    | skipped =>
      simp only [ok_bind, Bool.false_eq_true, if_false, ih]
      cases entries.any (·.verdict = .throws) <;>
        simp [ok_bind, error_bind, hverdict, DeadLetterEntry.reported, ReplayStore.replay]
    | asks q =>
      simp only [ok_bind, if_true, ih]
      cases entries.any (·.verdict = .throws) <;>
        simp [ok_bind, error_bind, hverdict, DeadLetterEntry.reported, ReplayStore.replay]
    | mistaken =>
      simp only [ok_bind, if_true, ih]
      cases entries.any (·.verdict = .throws) <;>
        simp [ok_bind, error_bind, hverdict, DeadLetterEntry.reported, ReplayStore.replay]

theorem replayId_inj {a b : String} : replayId a = replayId b ↔ a = b := by
  unfold replayId
  exact String.append_right_inj _

theorem clearDeadLetter_queues : (clearDeadLetter .succeed s id).queues = s.queues := rfl

theorem replay_queues_of_ne (h : entry.verdict = .asks q → replayId entry.jobId ≠ id) :
    (s.replay entry).queues q id = s.queues q id := by
  cases hverdict : entry.verdict with
  | asks q' =>
    simp only [ReplayStore.replay, hverdict, clearDeadLetter_queues, ReplayStore.add_queues]
    refine if_neg fun heq => ?_
    obtain ⟨rfl, rfl⟩ := heq
    exact h hverdict rfl
  | throws => simp [ReplayStore.replay, hverdict]
  | skipped => simp [ReplayStore.replay, hverdict]
  | mistaken => simp [ReplayStore.replay, hverdict, clearDeadLetter_queues]

/-- A stored job stays as it is. -/
theorem replay_queues (h : entry.verdict = .asks q) :
    (s.replay entry).queues q (replayId entry.jobId) =
      some ((s.queues q (replayId entry.jobId)).getD ⟨entry.jobName, entry.data, .waiting⟩) := by
  simp [ReplayStore.replay, h, clearDeadLetter_queues, ReplayStore.add_queues]

theorem foldl_replay_queues_of_ne
    (h : ∀ e ∈ entries, e.verdict = .asks q → replayId e.jobId ≠ id) :
    (entries.foldl ReplayStore.replay s).queues q id = s.queues q id := by
  induction entries generalizing s with
  | nil => rfl
  | cons entry entries ih =>
    rw [List.forall_mem_cons] at h
    exact (ih h.2).trans (replay_queues_of_ne h.1)

theorem foldl_replay_queues (hnodup : (entries.map (·.jobId)).Nodup) (hmem : entry ∈ entries)
    (h : entry.verdict = .asks q) :
    (entries.foldl ReplayStore.replay s).queues q (replayId entry.jobId) =
      some ((s.queues q (replayId entry.jobId)).getD ⟨entry.jobName, entry.data, .waiting⟩) := by
  induction entries generalizing s with
  | nil => cases hmem
  | cons e entries ih =>
    rw [List.map_cons, List.nodup_cons] at hnodup
    rw [List.foldl_cons]
    rcases List.mem_cons.mp hmem with rfl | hmem
    · rw [foldl_replay_queues_of_ne, replay_queues h]
      intro e he _ hid
      exact hnodup.1 (replayId_inj.mp hid ▸ List.mem_map_of_mem he)
    · rw [ih hnodup.2 hmem, replay_queues_of_ne]
      intro _ hid
      exact hnodup.1 (replayId_inj.mp hid ▸ List.mem_map_of_mem hmem)

/-- The row of an identifier is marked as recovered. -/
def ReplayStore.Recovered (s : ReplayStore) (jobId : String) : Prop :=
  ∃ row ∈ s.rows, row.jobId = jobId ∧ row.recovered

theorem replay_rows : (s.replay entry).rows =
    if entry.reported then s.rows.map (·.clear entry.jobId) else s.rows := by
  cases hverdict : entry.verdict <;>
    simp [ReplayStore.replay, DeadLetterEntry.reported, hverdict, clearDeadLetter, Calls.succeed,
      ReplayStore.add_rows]

theorem replay_ids : (s.replay entry).rows.map (·.jobId) = s.rows.map (·.jobId) := by
  rw [replay_rows]
  split
  · simp [Function.comp_def]
  · rfl

theorem replay_recovered : (s.replay entry).Recovered id ↔
    s.Recovered id ∨ (entry.reported ∧ entry.jobId = id ∧ id ∈ s.rows.map (·.jobId)) := by
  unfold ReplayStore.Recovered
  rw [replay_rows]
  by_cases hreported : entry.reported
  · simp only [if_pos hreported, List.mem_map, exists_exists_and_eq_and, DeadLetter.clear_jobId]
    constructor
    · rintro ⟨row, hrow, rfl, hrecovered⟩
      unfold DeadLetter.clear at hrecovered
      split at hrecovered
      · rename_i heq
        exact .inr ⟨hreported, heq.symm, row, hrow, rfl⟩
      · exact .inl ⟨row, hrow, rfl, hrecovered⟩
    · rintro (⟨row, hrow, rfl, hrecovered⟩ | ⟨-, rfl, row, hrow, heq⟩)
      · refine ⟨row, hrow, rfl, ?_⟩
        unfold DeadLetter.clear
        split <;> simp [hrecovered]
      · exact ⟨row, hrow, heq, by simp [DeadLetter.clear, heq]⟩
  · simp [hreported]

theorem foldl_replay_recovered : (entries.foldl ReplayStore.replay s).Recovered id ↔
    s.Recovered id ∨ (id ∈ (entries.filter (·.reported)).map (·.jobId) ∧
      id ∈ s.rows.map (·.jobId)) := by
  induction entries generalizing s with
  | nil => simp
  | cons entry entries ih =>
    rw [List.foldl_cons, ih, replay_recovered, replay_ids, or_assoc, ← and_assoc, ← or_and_right]
    refine or_congr_right (and_congr_left fun _ => ?_)
    by_cases hreported : entry.reported
    · rw [List.filter_cons_of_pos hreported, List.map_cons, List.mem_cons,
        and_iff_right hreported, @eq_comm _ id]
    · simp [hreported]

end Replay

/-! ### Completeness -/

section Completeness

variable {parse : String → Option Json} {s s' : ReplayStore} {row : DeadLetter}

/-- A job for the row's payload is waiting to run, under the row's identifier. -/
def Waiting (parse : String → Option Json) (s : ReplayStore) (row : DeadLetter) : Prop :=
  ∃ q payload name, queueOf row.queueName = some q ∧ parse row.data = some payload ∧
    s.queues q (replayId row.jobId) = some ⟨name, payload, .waiting⟩

/-- And it was not there before. -/
def NewlyEnqueued (parse : String → Option Json) (s s' : ReplayStore) (row : DeadLetter) : Prop :=
  Waiting parse s' row ∧ ∀ q, queueOf row.queueName = some q →
    s.queues q (replayId row.jobId) = none

/-- What a replay of all rows promises. -/
def ReplayComplete (parse : String → Option Json) (s : ReplayStore) : Prop :=
  Yields (replayDeadLetters parse .succeed s none) fun (s', summary) =>
    (∀ row ∈ s.rows, row.recovered = false →
      row.jobId ∈ summary.skipped ∨ NewlyEnqueued parse s s' row ∧ s'.Recovered row.jobId) ∧
    ∀ row ∈ s.rows, row.jobId ∈ summary.replayed → s'.Recovered row.jobId → Waiting parse s' row

/-- A row that can be replayed, or else is skipped. -/
def Replayable (parse : String → Option Json) (s : ReplayStore) (row : DeadLetter) : Prop :=
  (∀ payload, parse row.data = some payload → payload ≠ .null) ∧
    ((toEntry parse row).jobName ≠ "" →
      match queueOf row.queueName with
      | some q => (parse row.data).isSome ∧ s.queues q (replayId row.jobId) = none
      | none => isDuplicateMessage ("Unsupported DLQ queueName: " ++ row.queueName) = false)

theorem verdict_of_ne_null {entry : DeadLetterEntry} (h : entry.data ≠ .null) : entry.verdict =
    if entry.jobName = "" then .skipped
    else
      match queueOf entry.queueName with
      | some q => .asks q
      | none =>
        if isDuplicateMessage ("Unsupported DLQ queueName: " ++ entry.queueName) then .mistaken
        else .skipped := by
  unfold DeadLetterEntry.verdict
  split
  · rename_i hnull
    exact absurd hnull h
  · rfl

theorem queueOf_of_verdict {entry : DeadLetterEntry} {q : QueueName}
    (h : entry.verdict = .asks q) : entry.data ≠ .null ∧ queueOf entry.queueName = some q := by
  have hnull : entry.data ≠ .null := by
    intro hnull
    simp [DeadLetterEntry.verdict, hnull] at h
  refine ⟨hnull, ?_⟩
  rw [verdict_of_ne_null hnull] at h
  split at h
  · cases h
  · split at h
    · rename_i q' hq'
      rw [hq', Verdict.asks.inj h]
    · split at h <;> cases h

theorem duplicate_of_verdict {entry : DeadLetterEntry} (h : entry.verdict = .mistaken) :
    queueOf entry.queueName = none ∧
      isDuplicateMessage ("Unsupported DLQ queueName: " ++ entry.queueName) = true := by
  have hnull : entry.data ≠ .null := by
    intro hnull
    simp [DeadLetterEntry.verdict, hnull] at h
  rw [verdict_of_ne_null hnull] at h
  split at h
  · cases h
  · split at h
    · cases h
    · rename_i hqueue
      split at h
      · rename_i hduplicate
        exact ⟨hqueue, hduplicate⟩
      · cases h

/-- What that says of the row's entry. -/
theorem replayable_iff : Replayable parse s row ↔
    match (toEntry parse row).verdict with
    | .throws | .mistaken => False
    | .skipped => True
    | .asks q => (parse row.data).isSome ∧ s.queues q (replayId row.jobId) = none := by
  unfold Replayable
  by_cases hnull : parse row.data = some .null
  · have hverdict : (toEntry parse row).verdict = .throws := by
      simp [DeadLetterEntry.verdict, toEntry, hnull]
    rw [hverdict]
    exact iff_of_false (fun h => h.1 _ hnull rfl) id
  · have hdata : (toEntry parse row).data ≠ .null := by
      intro hdata
      cases hparse : parse row.data with
      | none => simp [toEntry, hparse] at hdata
      | some payload =>
        simp only [toEntry, hparse, Option.getD_some] at hdata
        exact hnull (hdata ▸ hparse)
    have hpayload : ∀ payload, parse row.data = some payload → payload ≠ .null := by
      rintro payload hparse rfl
      exact hnull hparse
    rw [verdict_of_ne_null hdata, and_iff_right hpayload]
    by_cases hname : (toEntry parse row).jobName = ""
    · simp [hname]
    · rw [forall_prop_of_true hname, if_neg hname]
      have hqueue : (toEntry parse row).queueName = row.queueName := rfl
      rw [hqueue]
      cases queueOf row.queueName with
      | some q => rfl
      | none =>
        cases isDuplicateMessage ("Unsupported DLQ queueName: " ++ row.queueName) <;> simp

/-- The entries that a replay of all rows goes through. -/
def pageOf (parse : String → Option Json) (s : ReplayStore) : List DeadLetterEntry :=
  ((s.rows.filter (!·.recovered)).take 500).map (toEntry parse)

theorem replayDeadLetters_eq :
    replayDeadLetters parse .succeed s none = replayEntries .succeed s (pageOf parse s) := by
  simp [replayDeadLetters, getDeadLetters, Calls.succeed, pageOf, ok_bind]

theorem pageOf_nodup : ((pageOf parse s).map (·.jobId)).Nodup := by
  have hsublist : ((s.rows.filter (!·.recovered)).take 500).Sublist s.rows :=
    (List.take_sublist ..).trans List.filter_sublist
  have hids : (pageOf parse s).map (·.jobId) =
      ((s.rows.filter (!·.recovered)).take 500).map (·.jobId) := by
    simp [pageOf, Function.comp_def, toEntry]
  rw [hids]
  exact (hsublist.map _).nodup s.unique

/-- An entry of the page with a row's identifier is the row's own. -/
theorem eq_toEntry_of_mem {e : DeadLetterEntry} (he : e ∈ pageOf parse s) (hrow : row ∈ s.rows)
    (hid : e.jobId = row.jobId) :
    e = toEntry parse row ∧ row ∈ (s.rows.filter (!·.recovered)).take 500 := by
  obtain ⟨row', hrow', rfl⟩ := List.mem_map.mp he
  have hmem := List.mem_of_mem_filter (List.mem_of_mem_take hrow')
  obtain rfl := List.inj_on_of_nodup_map s.unique hmem hrow hid
  exact ⟨rfl, hrow'⟩

/-- A row that is not skipped is replayed under its own identifier, or not at all. -/
theorem asks_of_newlyEnqueued (hrow : row ∈ s.rows)
    (h : NewlyEnqueued parse s ((pageOf parse s).foldl ReplayStore.replay s) row) :
    ∃ q, (toEntry parse row).verdict = .asks q ∧ toEntry parse row ∈ pageOf parse s ∧
      (parse row.data).isSome ∧ s.queues q (replayId row.jobId) = none := by
  obtain ⟨⟨q, payload, name, hq, hparse, hstored⟩, hfree⟩ := h
  have hnone := hfree q hq
  by_contra hnot
  rw [foldl_replay_queues_of_ne, hnone] at hstored
  · cases hstored
  · intro e he hasks hid
    obtain ⟨rfl, hpage⟩ := eq_toEntry_of_mem he hrow (replayId_inj.mp hid)
    exact hnot ⟨q, hasks, he, by simp [hparse], hnone⟩

/-- A row that is asked for and whose identifier is free is newly enqueued. -/
theorem newlyEnqueued_of_asks {q : QueueName} (hmem : toEntry parse row ∈ pageOf parse s)
    (h : (toEntry parse row).verdict = .asks q) (hparse : (parse row.data).isSome)
    (hfree : s.queues q (replayId row.jobId) = none) :
    NewlyEnqueued parse s ((pageOf parse s).foldl ReplayStore.replay s) row := by
  obtain ⟨payload, hpayload⟩ := Option.isSome_iff_exists.mp hparse
  have hqueue : queueOf row.queueName = some q := (queueOf_of_verdict h).2
  have hid : (toEntry parse row).jobId = row.jobId := rfl
  have hdata : (toEntry parse row).data = payload := by simp [toEntry, hpayload]
  refine ⟨⟨q, payload, (toEntry parse row).jobName, hqueue, hpayload, ?_⟩, ?_⟩
  · have hstored := foldl_replay_queues (s := s) pageOf_nodup hmem h
    rwa [hid, hfree, hdata] at hstored
  · intro q' hq'
    rw [hqueue, Option.some.injEq] at hq'
    rw [← hq', hfree]

/-- A complete replay comes to every row, which it can replay. -/
theorem mem_page_of_complete (h : ReplayComplete parse s) (hrow : row ∈ s.rows)
    (hleft : row.recovered = false) :
    row ∈ (s.rows.filter (!·.recovered)).take 500 ∧ Replayable parse s row := by
  rw [ReplayComplete, replayDeadLetters_eq, replayEntries_succeed] at h
  split at h
  · exact h.elim
  · rename_i hthrows
    rw [replayable_iff]
    rcases h.1 row hrow hleft with hskipped | ⟨henqueued, -⟩
    · obtain ⟨e, he, hid⟩ := List.mem_map.mp hskipped
      obtain ⟨he, hreported⟩ := List.mem_filter.mp he
      obtain ⟨rfl, hmem⟩ := eq_toEntry_of_mem he hrow hid
      refine ⟨hmem, ?_⟩
      cases hverdict : (toEntry parse row).verdict with
      | throws => exact hthrows (List.any_eq_true.mpr ⟨_, he, decide_eq_true hverdict⟩)
      | skipped => trivial
      | asks q => simp [DeadLetterEntry.reported, hverdict] at hreported
      | mistaken => simp [DeadLetterEntry.reported, hverdict] at hreported
    · obtain ⟨q, hverdict, he, hparse, hfree⟩ := asks_of_newlyEnqueued hrow henqueued
      rw [hverdict]
      exact ⟨(eq_toEntry_of_mem he hrow rfl).2, hparse, hfree⟩

/-- Every entry of the page is that of a row that is not recovered. -/
theorem exists_row_of_mem {e : DeadLetterEntry} (he : e ∈ pageOf parse s) :
    ∃ row ∈ s.rows, row.recovered = false ∧ e = toEntry parse row := by
  obtain ⟨row, hrow, rfl⟩ := List.mem_map.mp he
  obtain ⟨hrow, hleft⟩ := List.mem_filter.mp (List.mem_of_mem_take hrow)
  exact ⟨row, hrow, by simpa using hleft, rfl⟩

theorem complete_of_replayable (hlength : (s.rows.filter (!·.recovered)).length ≤ 500)
    (hall : ∀ row ∈ s.rows, row.recovered = false → Replayable parse s row) :
    ReplayComplete parse s := by
  have hthrows : ¬ (pageOf parse s).any (·.verdict = .throws) := by
    intro hany
    obtain ⟨e, he, hverdict⟩ := List.any_eq_true.mp hany
    obtain ⟨row, hrow, hleft, rfl⟩ := exists_row_of_mem he
    have hrep := hall row hrow hleft
    rw [replayable_iff, of_decide_eq_true hverdict] at hrep
    exact hrep
  rw [ReplayComplete, replayDeadLetters_eq, replayEntries_succeed, if_neg hthrows]
  refine ⟨fun row hrow hleft => ?_, fun row hrow hreplayed _ => ?_⟩
  · have he : toEntry parse row ∈ pageOf parse s := by
      rw [pageOf, List.take_of_length_le hlength]
      exact List.mem_map_of_mem (List.mem_filter.mpr ⟨hrow, by simp [hleft]⟩)
    have hrep := hall row hrow hleft
    rw [replayable_iff] at hrep
    cases hverdict : (toEntry parse row).verdict with
    | throws => exact (hverdict ▸ hrep).elim
    | mistaken => exact (hverdict ▸ hrep).elim
    | skipped =>
      refine .inl (List.mem_map.mpr ⟨_, List.mem_filter.mpr ⟨he, ?_⟩, rfl⟩)
      simp [DeadLetterEntry.reported, hverdict]
    | asks q =>
      rw [hverdict] at hrep
      refine .inr ⟨newlyEnqueued_of_asks he hverdict hrep.1 hrep.2, ?_⟩
      refine foldl_replay_recovered.mpr (.inr ⟨?_, List.mem_map_of_mem hrow⟩)
      refine List.mem_map.mpr ⟨_, List.mem_filter.mpr ⟨he, ?_⟩, rfl⟩
      simp [DeadLetterEntry.reported, hverdict]
  · obtain ⟨e, he, hid⟩ := List.mem_map.mp hreplayed
    obtain ⟨he, hreported⟩ := List.mem_filter.mp he
    obtain ⟨row', hrow', hleft, rfl⟩ := exists_row_of_mem he
    obtain rfl := List.inj_on_of_nodup_map s.unique hrow' hrow hid
    have hrep := hall row' hrow' hleft
    rw [replayable_iff] at hrep
    cases hverdict : (toEntry parse row').verdict with
    | throws => exact (hverdict ▸ hrep).elim
    | mistaken => exact (hverdict ▸ hrep).elim
    | skipped => simp [DeadLetterEntry.reported, hverdict] at hreported
    | asks q =>
      rw [hverdict] at hrep
      exact (newlyEnqueued_of_asks he hverdict hrep.1 hrep.2).1

/-- **Replays are complete.** A replay of all rows in which every call succeeds reports each one as
skipped, or adds a job for its payload and marks it, and takes none for replayed whose job does not
wait, exactly if there are no more than five hundred and every one that is not to be skipped has
a payload, a queue and an identifier under which that queue stores nothing. -/
theorem replay_complete_iff (parse : String → Option Json) (s : ReplayStore) :
    ReplayComplete parse s ↔
      (s.rows.filter (!·.recovered)).length ≤ 500 ∧
        ∀ row ∈ s.rows, row.recovered = false → Replayable parse s row := by
  refine ⟨fun h => ⟨?_, fun row hrow hleft => (mem_page_of_complete h hrow hleft).2⟩,
    fun h => complete_of_replayable h.1 h.2⟩
  have hsubset : s.rows.filter (!·.recovered) ⊆ (s.rows.filter (!·.recovered)).take 500 := by
    intro row hmem
    obtain ⟨hrow, hleft⟩ := List.mem_filter.mp hmem
    exact (mem_page_of_complete h hrow (by simpa using hleft)).1
  have hnodup : (s.rows.filter (!·.recovered)).Nodup := (List.Nodup.of_map _ s.unique).filter _
  exact Nat.le_trans (List.subperm_of_subset hnodup hsubset).length_le (List.length_take_le ..)

/-- So many rows, none of them replayed. -/
def untouchedRows (n : ℕ) : ReplayStore where
  rows := (List.range n).map fun i : ℕ =>
    ⟨toString (i : ℤ), "swap.processed", "e", "\x7b\x7d", false⟩
  unique := by
    rw [List.map_map]
    exact List.nodup_range.map fun a b h => Js.toString_natCast_inj.mp h
  queues := fun _ _ => none

theorem untouchedRows_incomplete (parse : String → Option Json) {n : ℕ} (hn : 500 < n) :
    ¬ ReplayComplete parse (untouchedRows n) := by
  intro h
  have hlength := ((replay_complete_iff parse (untouchedRows n)).mp h).1
  rw [List.filter_eq_self.mpr (by simp [untouchedRows])] at hlength
  have hn' : n ≤ 500 := by simpa [untouchedRows] using hlength
  omega

/-- A replay does not come to the last of five hundred and one rows. -/
theorem row_beyond_page :
    ¬ ReplayComplete (fun _ => some (.object [])) (untouchedRows 501) :=
  untouchedRows_incomplete _ (by omega)

/-- Nothing but what replays are made for stands in the row's way: its payload parses, its queue's
name does not read like the message about a duplicate, and what its queue stores under its
identifier is a job for its payload that waits. -/
def Clean (parse : String → Option Json) (s : ReplayStore) (row : DeadLetter) : Prop :=
  (parse row.data).isSome ∧
    match queueOf row.queueName with
    | some q => s.queues q (replayId row.jobId) = none ∨ Waiting parse s row
    | none => isDuplicateMessage ("Unsupported DLQ queueName: " ++ row.queueName) = false

/-- A replay does not come to the row. -/
def Untouched (s s' : ReplayStore) (summary : DeadLetterReplaySummary) (row : DeadLetter) : Prop :=
  row.jobId ∉ summary.skipped ∧ row.jobId ∉ summary.replayed ∧ ¬ s'.Recovered row.jobId ∧
    ∀ q, s'.queues q (replayId row.jobId) = s.queues q (replayId row.jobId)

theorem untouched_of_drop {summary : DeadLetterReplaySummary}
    (hskipped : summary.skipped = ((pageOf parse s).filter fun e => !e.reported).map (·.jobId))
    (hreplayed : summary.replayed = ((pageOf parse s).filter (·.reported)).map (·.jobId))
    (hrow : row ∈ (s.rows.filter (!·.recovered)).drop 500) :
    Untouched s ((pageOf parse s).foldl ReplayStore.replay s) summary row := by
  obtain ⟨hrows, hleft⟩ := List.mem_filter.mp (List.mem_of_mem_drop hrow)
  have hne : ∀ e ∈ pageOf parse s, e.jobId ≠ row.jobId := by
    intro e he hid
    have hnodup : (s.rows.filter (!·.recovered)).Nodup := (List.Nodup.of_map _ s.unique).filter _
    exact List.disjoint_take_drop hnodup (Nat.le_refl 500) (eq_toEntry_of_mem he hrows hid).2 hrow
  have hnot : ∀ p : DeadLetterEntry → Bool,
      row.jobId ∉ ((pageOf parse s).filter p).map (·.jobId) := by
    intro p hin
    obtain ⟨e, he, hid⟩ := List.mem_map.mp hin
    exact hne e (List.mem_of_mem_filter he) hid
  refine ⟨hskipped ▸ hnot _, hreplayed ▸ hnot _, fun hrecovered => ?_, fun q => ?_⟩
  · rcases foldl_replay_recovered.mp hrecovered with ⟨row', hrow', hid, hmarked⟩ | ⟨hin, -⟩
    · obtain rfl := List.inj_on_of_nodup_map s.unique hrow' hrows hid
      simp [hmarked] at hleft
    · exact hnot _ hin
  · exact foldl_replay_queues_of_ne fun e he _ hid => hne e he (replayId_inj.mp hid)

/-- A row whose queue is asked, and stores nothing in the way, waits there afterwards. -/
theorem waiting_of_asks {q : QueueName} (he : toEntry parse row ∈ pageOf parse s)
    (hverdict : (toEntry parse row).verdict = .asks q) (hclean : Clean parse s row) :
    NewlyEnqueued parse s ((pageOf parse s).foldl ReplayStore.replay s) row ∨
      Waiting parse s row ∧ Waiting parse ((pageOf parse s).foldl ReplayStore.replay s) row := by
  have hqueue : queueOf row.queueName = some q := (queueOf_of_verdict hverdict).2
  obtain ⟨hparse, hstore⟩ := hclean
  rw [hqueue] at hstore
  rcases hstore with hfree | hwaiting
  · exact .inl (newlyEnqueued_of_asks he hverdict hparse hfree)
  · refine .inr ⟨hwaiting, ?_⟩
    obtain ⟨q', payload, name, hq', hpayload, hstored⟩ := hwaiting
    obtain rfl : q = q' := Option.some.inj (hqueue.symm.trans hq')
    have hkept := foldl_replay_queues (s := s) pageOf_nodup he hverdict
    have hid : (toEntry parse row).jobId = row.jobId := rfl
    rw [hid, hstored, Option.getD_some] at hkept
    exact ⟨q, payload, name, hqueue, hpayload, hkept⟩

/-- **Replays account for their page.** A replay of all rows in which every call succeeds, if it
returns, has reported each of the five hundred newest that nothing stands in the way of as
skipped, or has marked it and its job waits: newly added, or as it did before. It reports none as
replayed whose job does not wait, and touches no other row. -/
theorem replay_accounts (parse : String → Option Json) (s : ReplayStore) :
    Ensures (replayDeadLetters parse .succeed s none) fun (s', summary) =>
      (∀ row ∈ (s.rows.filter (!·.recovered)).take 500, Clean parse s row →
        (row.jobId ∈ summary.skipped ∨ s'.Recovered row.jobId ∧
          (NewlyEnqueued parse s s' row ∨ Waiting parse s row ∧ Waiting parse s' row)) ∧
        (row.jobId ∈ summary.replayed → Waiting parse s' row)) ∧
      ∀ row ∈ (s.rows.filter (!·.recovered)).drop 500, Untouched s s' summary row := by
  rw [replayDeadLetters_eq, replayEntries_succeed]
  split
  · trivial
  · rename_i hthrows
    refine ⟨fun row hrow hclean => ?_, fun row hrow => untouched_of_drop rfl rfl hrow⟩
    have he : toEntry parse row ∈ pageOf parse s := List.mem_map_of_mem hrow
    have hrows := List.mem_of_mem_filter (List.mem_of_mem_take hrow)
    cases hverdict : (toEntry parse row).verdict with
    | throws => exact absurd (List.any_eq_true.mpr ⟨_, he, decide_eq_true hverdict⟩) hthrows
    | skipped =>
      have hreported : (toEntry parse row).reported = false := by
        simp [DeadLetterEntry.reported, hverdict]
      refine ⟨.inl (List.mem_map.mpr ⟨_, List.mem_filter.mpr ⟨he, by simp [hreported]⟩, rfl⟩), ?_⟩
      intro hin
      obtain ⟨e, he', hid⟩ := List.mem_map.mp hin
      obtain ⟨he', hrep⟩ := List.mem_filter.mp he'
      obtain ⟨rfl, -⟩ := eq_toEntry_of_mem he' hrows hid
      simp [hreported] at hrep
    | mistaken =>
      obtain ⟨hqueue, hduplicate⟩ := duplicate_of_verdict hverdict
      obtain ⟨-, hclean⟩ := hclean
      have hqueue' : queueOf row.queueName = none := hqueue
      rw [hqueue'] at hclean
      cases hduplicate.symm.trans hclean
    | asks q =>
      have hwaits := waiting_of_asks he hverdict hclean
      refine ⟨.inr ⟨?_, hwaits⟩, fun _ => hwaits.elim (·.1) (·.2)⟩
      refine foldl_replay_recovered.mpr (.inr ⟨?_, List.mem_map_of_mem hrows⟩)
      refine List.mem_map.mpr ⟨_, List.mem_filter.mpr ⟨he, ?_⟩, rfl⟩
      simp [DeadLetterEntry.reported, hverdict]

end Completeness

end Swyft.Indexer
