import Swyft.Indexer.Handlers
import Swyft.Indexer.Interference

/-!
# The checkpoint

Jobs wait in their queues, are taken up by any number of workers, and come back when their
handler throws or their worker dies, until they have been tried too often. Each handler that is
through with an event moves the one cursor they all share, by `advanceLedger`.

An event enqueued is accounted for: its row is stored, or it waits, has failed for good, is about
to be written, or was acknowledged without ever being written. The cursor asks about none of
this. It is safe as long as whatever is still unfinished lies at or above the ledger it is moved
to, and what is enqueued later lies at or above it too.

How many jobs of a queue run at a time, `getWorkerConcurrency`, is a matter of which runs there
are; what follows holds of each of them.

## Main definitions

* `queueRules` — the five queues, their workers, retries and stalled jobs
* `Safe` — every event enqueued below the cursor is stored
* `InOrder` — the cursor passes no unfinished event

## Main results

* `Accounted.exec` — no event is lost track of
* `checkpoint_safe_iff` — the cursor is safe all along a run exactly if its steps are in order
* `checkpoint_passes_waiting` — an event of a later ledger is handled first
-/

namespace Swyft.Indexer

open Interleaving

/-! ### The queues -/

structure Job where
  event : Event
  attemptsMade : ℕ
  stalledCounter : ℕ
  deriving DecidableEq

/-- The jobs that wait and those that failed for good, whatever their queue, and the store. -/
structure Queues where
  store : Store
  isReady : Bool
  waiting : List Job
  failed : List Job

/-- A job taken up, and the next access of its handler. -/
structure Running where
  job : Job
  work : Work
  deriving DecidableEq

/-- What a worker is told: the answer of the database, or that its process dies. -/
inductive Told where
  | reply (r : Reply)
  | dies
  deriving DecidableEq

inductive Signal where
  | enqueue (e : Event)
  /-- A worker takes up the waiting job at a place. -/
  | take (i : ℕ)
  | setReady (isReady : Bool)
  deriving DecidableEq

inductive QueueEvent where
  | enqueued (e : Event)
  /-- Acknowledged without a write: malformed, or the worker was not ready. -/
  | dropped (e : Event)
  | acknowledged (e : Event)
  deriving DecidableEq

/-- `attempts: 3`: a job whose handler throws is tried again or has failed for good. -/
def Queues.retry (s : Queues) (job : Job) : Queues :=
  let job := { job with attemptsMade := job.attemptsMade + 1 }
  if job.attemptsMade < 3 then { s with waiting := s.waiting ++ [job] }
  else { s with failed := s.failed ++ [job] }

/-- `maxStalledCount: 2`: a job whose worker died waits again or has failed for good. -/
def Queues.stall (s : Queues) (job : Job) : Queues :=
  let job := { job with stalledCounter := job.stalledCounter + 1 }
  if job.stalledCounter ≤ 2 then { s with waiting := s.waiting ++ [job] }
  else { s with failed := s.failed ++ [job] }

section Rules

variable (feeOf : String → ℤ → String) (validDate : String → Bool)

/-- A worker goes on with its job. -/
def runJob (s : Queues) (p : Running) : Told → Queues × List Running × List QueueEvent
  | .dies => (s.stall p.job, [], [])
  | .reply r =>
    let (store, h) := handle feeOf validDate s.store p.job.event p.work r
    match h with
    | .working work => ({ s with store }, [⟨p.job, work⟩], [])
    | .returned => ({ s with store }, [], [.acknowledged p.job.event])
    | .threw => (Queues.retry { s with store } p.job, [], [])

/-- A worker takes a job up, if it is still there. -/
def takeUp (s : Queues) (i : ℕ) : Option (Queues × List Running × List QueueEvent) :=
  s.waiting[i]?.map fun job =>
    let s := { s with waiting := s.waiting.eraseIdx i }
    match guardedHandler s.isReady job.event with
    | .working work => (s, [⟨job, work⟩], [])
    | _ => (s, [], [.dropped job.event])

def queueRules : Rules Queues Running Told Signal QueueEvent where
  step s p told := some (runJob feeOf validDate s p told)
  outside s
    | .enqueue e => some ({ s with waiting := s.waiting ++ [⟨e, 0, 0⟩] }, [], [.enqueued e])
    | .take i => takeUp s i
    | .setReady isReady => some ({ s with isReady }, [], [])

end Rules

/-! ### What is promised -/

/-- The event is of a ledger below the row. -/
def Event.Below (e : Event) (row : Option CursorRow) : Prop :=
  ∃ ledger ∈ e.ledger, ((ledger : ℤ) : WithBot ℤ) < level row

/-- Every event enqueued below the cursor is stored. -/
def Safe (P : Pool Queues Running QueueEvent) : Prop :=
  ∀ e, .enqueued e ∈ P.log → e.Below P.shared.store.cursor.row → P.shared.store.db.HasEvent e

variable (feeOf : String → ℤ → String) (validDate : String → Bool)

/-- The step leaves the cursor safe. -/
def SafeAfter (P : Pool Queues Running QueueEvent) (a : Act Told Signal) : Prop :=
  Checked.Ensures ((queueRules feeOf validDate).exec P a) fun x => Safe x.1

/-- The event a job is about to write. -/
def Running.writing (p : Running) : Option Event :=
  match p.work with
  | .access (.write e) => some e
  | _ => none

def QueueEvent.isDropped : QueueEvent → Option Event
  | .dropped e => some e
  | _ => none

/-- The events that wait or have failed. -/
def Queues.events (s : Queues) : List Event := (s.waiting ++ s.failed).map Job.event

/-- The events that wait, have failed, are about to be written, or were dropped. -/
def unfinished (P : Pool Queues Running QueueEvent) : List Event :=
  P.shared.events ++ P.running.filterMap Running.writing ++ P.log.filterMap QueueEvent.isDropped

/-- If the access moves the cursor, it moves it past no unfinished event that is not stored. -/
def PassesNone (P : Pool Queues Running QueueEvent) : Work → Prop
  | .checkpoint (.upsert ledger) =>
    ∀ e ∈ unfinished P, e.Below (some ⟨some ledger⟩) → P.shared.store.db.HasEvent e
  | _ => True

/-- The cursor is moved past no unfinished event that is not stored, and no such event is enqueued
below it. -/
def InOrder (P : Pool Queues Running QueueEvent) : Act Told Signal → Prop
  | .step i (.reply .served) => ∀ p ∈ P.running[i]?, PassesNone P p.work
  | .outside (.enqueue e) =>
    e.Below P.shared.store.cursor.row → P.shared.store.db.HasEvent e
  | _ => True

instance decidableBelow (e : Event) (row : Option CursorRow) : Decidable (e.Below row) :=
  inferInstanceAs (Decidable (∃ ledger ∈ e.ledger, ((ledger : ℤ) : WithBot ℤ) < level row))

instance decidablePassesNone (P : Pool Queues Running QueueEvent) :
    ∀ w, Decidable (PassesNone P w)
  | .checkpoint (.upsert ledger) =>
    inferInstanceAs (Decidable (∀ e ∈ unfinished P, e.Below (some ⟨some ledger⟩) →
      P.shared.store.db.HasEvent e))
  | .checkpoint (.setMax _) | .checkpoint (.findUnique _ _) | .access _ => instDecidableTrue

instance decidableInOrder (P : Pool Queues Running QueueEvent) : ∀ a, Decidable (InOrder P a)
  | .step i (.reply .served) =>
    inferInstanceAs (Decidable (∀ p ∈ P.running[i]?, PassesNone P p.work))
  | .outside (.enqueue e) =>
    inferInstanceAs (Decidable (e.Below P.shared.store.cursor.row → P.shared.store.db.HasEvent e))
  | .step _ (.reply .failed) | .step _ .dies => instDecidableTrue
  | .outside (.take _) | .outside (.setReady _) => instDecidableTrue

/-! ### Workers -/

variable {feeOf : String → ℤ → String} {validDate : String → Bool}

/-- What a worker's step leaves of the events outside the tables: those that waited or failed, and
its own if it must come back. -/
structure Worked (s : Queues) (p : Running) (s' : Queues) (ps : List Running)
    (seen : List QueueEvent) : Prop where
  keeps : ∀ x, s.store.db.HasEvent x → s'.store.db.HasEvent x
  waits : ∀ x ∈ s.events, x ∈ s'.events
  returns : ∀ x ∈ s'.events, x ∈ s.events ∨ x = p.job.event
  writes : ∀ x ∈ p.writing, s'.store.db.HasEvent x ∨ p.job.event ∈ s'.events
  left : ∀ q ∈ ps, q.job = p.job ∧ q.writing = none
  seen : ∀ y ∈ seen, y = .acknowledged p.job.event

@[simp] theorem retry_store (s : Queues) (job : Job) : (s.retry job).store = s.store := by
  simp only [Queues.retry]
  split <;> rfl

@[simp] theorem stall_store (s : Queues) (job : Job) : (s.stall job).store = s.store := by
  simp only [Queues.stall]
  split <;> rfl

theorem mem_retry {s : Queues} {job : Job} {x : Event} :
    x ∈ (s.retry job).events ↔ x ∈ s.events ∨ x = job.event := by
  simp only [Queues.retry]
  split <;> simp [Queues.events, or_comm, or_left_comm]

theorem mem_stall {s : Queues} {job : Job} {x : Event} :
    x ∈ (s.stall job).events ↔ x ∈ s.events ∨ x = job.event := by
  simp only [Queues.stall]
  split <;> simp [Queues.events, or_comm, or_left_comm]

theorem writing_eq_some {p : Running} {x : Event} :
    p.writing = some x ↔ p.work = .access (.write x) := by
  obtain ⟨job, work⟩ := p
  rcases work with k | call
  · cases k <;> simp [Running.writing]
  · simp [Running.writing]

/-- A step of a worker. -/
theorem runJob_worked {s s' : Queues} {p : Running} {told : Told} {ps : List Running}
    {seen : List QueueEvent} (h : runJob feeOf validDate s p told = (s', ps, seen)) :
    Worked s p s' ps seen := by
  cases told with
  | dies =>
    simp only [runJob, Prod.mk.injEq] at h
    obtain ⟨rfl, rfl, rfl⟩ := h
    refine ⟨fun x hx => by rwa [stall_store], fun x hx => mem_stall.mpr (.inl hx),
      fun x hx => mem_stall.mp hx, fun x _ => .inr (mem_stall.mpr (.inr rfl)),
      List.forall_mem_nil _, List.forall_mem_nil _⟩
  | reply r =>
    have hkeeps : ∀ x, s.store.db.HasEvent x →
        (handle feeOf validDate s.store p.job.event p.work r).1.db.HasEvent x := fun x =>
      handle_hasEvent p.work r
    have hwrites : ∀ x ∈ p.writing, (handle feeOf validDate s.store p.job.event p.work r).2
        = .threw ∨ (handle feeOf validDate s.store p.job.event p.work r).1.db.HasEvent x := by
      intro x hx
      rw [writing_eq_some.mp hx]
      exact handle_write r x
    have hleft : ∀ x, (handle feeOf validDate s.store p.job.event p.work r).2
        ≠ .working (.access (.write x)) := handle_left p.work r
    simp only [runJob] at h
    generalize handle feeOf validDate s.store p.job.event p.work r = y at h hkeeps hwrites hleft
    obtain ⟨store, a⟩ := y
    cases a with
    | working work =>
      cases h
      refine ⟨hkeeps, fun x hx => hx, fun x hx => .inl hx,
        fun x hx => .inl ((hwrites x hx).resolve_left nofun), fun q hq => ?_,
        List.forall_mem_nil _⟩
      obtain rfl := List.mem_singleton.mp hq
      refine ⟨rfl, Option.eq_none_iff_forall_ne_some.mpr fun x hx => hleft x ?_⟩
      exact congrArg Handling.working (writing_eq_some.mp hx)
    | returned =>
      cases h
      exact ⟨hkeeps, fun x hx => hx, fun x hx => .inl hx,
        fun x hx => .inl ((hwrites x hx).resolve_left nofun), List.forall_mem_nil _,
        fun y hy => List.mem_singleton.mp hy⟩
    | threw =>
      cases h
      exact ⟨fun x hx => by simpa using hkeeps x hx, fun x hx => mem_retry.mpr (.inl hx),
        fun x hx => (mem_retry (s := { s with store })).mp hx,
        fun x _ => .inr (mem_retry.mpr (.inr rfl)), List.forall_mem_nil _, List.forall_mem_nil _⟩

/-- A worker that takes a job up is about to write its event, or has dropped it. -/
theorem takeUp_cases {s s' : Queues} {i : ℕ} {ps : List Running} {seen : List QueueEvent}
    (h : takeUp s i = some (s', ps, seen)) :
    ∃ job, job.event ∈ s.events ∧ s'.store = s.store ∧ (∀ x ∈ s'.events, x ∈ s.events) ∧
      (∀ x ∈ s.events, x ∈ s'.events ∨ x = job.event) ∧
      (ps = [⟨job, .access (.write job.event)⟩] ∧ seen = [] ∨ ps = [] ∧ seen = [.dropped job.event])
    := by
  obtain ⟨job, hjob, heq⟩ := Option.map_eq_some_iff.mp h
  have hmem : job ∈ s.waiting := List.mem_of_getElem? hjob
  have hsub : ∀ j ∈ s.waiting.eraseIdx i, j ∈ s.waiting := fun j =>
    (List.eraseIdx_sublist ..).mem
  have hcover : ∀ j ∈ s.waiting, j ∈ s.waiting.eraseIdx i ∨ j = job := by
    intro j hj
    obtain ⟨k, hk⟩ := List.getElem?_of_mem hj
    by_cases hki : k = i
    · subst hki
      exact .inr (Option.some.inj (hk.symm.trans hjob))
    · exact .inl (List.mem_eraseIdx_iff_getElem?.mpr ⟨k, hki, hk⟩)
  have hevents : ∀ x ∈ (s.waiting.eraseIdx i ++ s.failed).map Job.event, x ∈ s.events := by
    intro x hx
    obtain ⟨j, hj, rfl⟩ := List.mem_map.mp hx
    refine List.mem_map_of_mem ?_
    simp only [List.mem_append] at hj ⊢
    exact hj.imp_left (hsub j)
  have hkept : ∀ x ∈ s.events,
      x ∈ (s.waiting.eraseIdx i ++ s.failed).map Job.event ∨ x = job.event := by
    intro x hx
    obtain ⟨j, hj, rfl⟩ := List.mem_map.mp hx
    rcases List.mem_append.mp hj with hj | hj
    · rcases hcover j hj with hj | rfl
      · exact .inl (List.mem_map_of_mem (List.mem_append_left _ hj))
      · exact .inr rfl
    · exact .inl (List.mem_map_of_mem (List.mem_append_right _ hj))
  refine ⟨job, List.mem_map_of_mem (List.mem_append_left _ hmem), ?_⟩
  simp only [guardedHandler] at heq
  split at heq
  case h_1 work hwork =>
    cases heq
    refine ⟨rfl, hevents, hkept, .inl ⟨?_, rfl⟩⟩
    split at hwork
    · cases hwork
      rfl
    · cases hwork
  case h_2 =>
    cases heq
    exact ⟨rfl, hevents, hkept, .inr ⟨rfl, rfl⟩⟩

/-! ### Nothing is lost track of -/

structure Accounted (P : Pool Queues Running QueueEvent) : Prop where
  accounted : ∀ e, .enqueued e ∈ P.log → P.shared.store.db.HasEvent e ∨ e ∈ unfinished P
  known : ∀ e ∈ unfinished P, .enqueued e ∈ P.log
  own : ∀ p ∈ P.running, .enqueued p.job.event ∈ P.log ∧ ∀ x ∈ p.writing, x = p.job.event

theorem mem_unfinished {s : Queues} {running : List Running} {log : List QueueEvent} {e : Event} :
    e ∈ unfinished ⟨s, running, log⟩ ↔
      e ∈ s.events ∨ (∃ p ∈ running, e ∈ p.writing) ∨ .dropped e ∈ log := by
  have hdropped : ∀ y : QueueEvent, y.isDropped = some e ↔ y = .dropped e := by
    intro y
    cases y <;> simp [QueueEvent.isDropped]
  simp [unfinished, hdropped]

/-- A worker's step. -/
theorem Accounted.works {s s' : Queues} {before after ps : List Running} {p : Running}
    {log seen : List QueueEvent} (h : Accounted ⟨s, before ++ p :: after, log⟩)
    (hw : Worked s p s' ps seen) : Accounted ⟨s', before ++ ps ++ after, log ++ seen⟩ := by
  have hp := h.own p (by simp)
  have hseen : ∀ x, .enqueued x ∈ log ++ seen ↔ .enqueued x ∈ log := by
    intro x
    rw [List.mem_append, or_iff_left]
    exact fun hx => absurd (hw.seen _ hx) nofun
  have hdropped : ∀ x, .dropped x ∈ log ++ seen ↔ .dropped x ∈ log := by
    intro x
    rw [List.mem_append, or_iff_left]
    exact fun hx => absurd (hw.seen _ hx) nofun
  have hothers : ∀ q ∈ before ++ ps ++ after, q ∈ before ++ p :: after ∨ q ∈ ps := by
    simp only [List.mem_append, List.mem_cons]
    tauto
  refine ⟨fun x hx => ?_, fun x hx => ?_, fun q hq => ?_⟩
  · rw [mem_unfinished]
    rcases h.accounted x ((hseen x).mp hx) with hx | hx
    · exact .inl (hw.keeps x hx)
    · rcases mem_unfinished.mp hx with hx | ⟨q, hq, hwriting⟩ | hx
      · exact .inr (.inl (hw.waits x hx))
      · by_cases hqp : q = p
        · subst hqp
          obtain rfl := hp.2 x hwriting
          exact (hw.writes _ hwriting).imp_right .inl
        · refine .inr (.inr (.inl ⟨q, ?_, hwriting⟩))
          simp only [List.mem_append, List.mem_cons] at hq ⊢
          tauto
      · exact .inr (.inr (.inr ((hdropped x).mpr hx)))
  · rw [hseen]
    rcases mem_unfinished.mp hx with hx | ⟨q, hq, hx⟩ | hx
    · rcases hw.returns x hx with hx | rfl
      · exact h.known x (mem_unfinished.mpr (.inl hx))
      · exact hp.1
    · rcases hothers q hq with hq | hq
      · exact h.known x (mem_unfinished.mpr (.inr (.inl ⟨q, hq, hx⟩)))
      · rw [(hw.left q hq).2] at hx
        cases hx
    · exact h.known x (mem_unfinished.mpr (.inr (.inr ((hdropped x).mp hx))))
  · rw [hseen]
    rcases hothers q hq with hq | hq
    · exact h.own q hq
    · obtain ⟨hjob, hwriting⟩ := hw.left q hq
      rw [hjob, hwriting]
      exact ⟨hp.1, fun x hx => by cases hx⟩

/-- A worker takes up a job. -/
theorem Accounted.takes {s s' : Queues} {running ps : List Running} {log seen : List QueueEvent}
    {i : ℕ} (h : Accounted ⟨s, running, log⟩) (ht : takeUp s i = some (s', ps, seen)) :
    Accounted ⟨s', ps ++ running, log ++ seen⟩ := by
  obtain ⟨job, hjob, hstore, hsub, hcover, hps⟩ := takeUp_cases ht
  have hknown : .enqueued job.event ∈ log := h.known _ (mem_unfinished.mpr (.inl hjob))
  have hlog : ∀ x, .enqueued x ∈ log ++ seen ↔ .enqueued x ∈ log := by
    rcases hps with ⟨-, rfl⟩ | ⟨-, rfl⟩ <;> simp
  refine ⟨fun x hx => ?_, fun x hx => ?_, fun q hq => ?_⟩
  · rw [mem_unfinished, hstore]
    refine (h.accounted x ((hlog x).mp hx)).imp_right fun hx => ?_
    rcases mem_unfinished.mp hx with hx | ⟨q, hq, hx⟩ | hx
    · rcases hcover x hx with hx | rfl
      · exact .inl hx
      · rcases hps with ⟨rfl, -⟩ | ⟨-, rfl⟩
        · exact .inr (.inl ⟨_, .head _, rfl⟩)
        · exact .inr (.inr (by simp))
    · exact .inr (.inl ⟨q, List.mem_append_right _ hq, hx⟩)
    · exact .inr (.inr (List.mem_append_left _ hx))
  · rw [hlog]
    rcases mem_unfinished.mp hx with hx | ⟨q, hq, hx⟩ | hx
    · exact h.known x (mem_unfinished.mpr (.inl (hsub x hx)))
    · rcases List.mem_append.mp hq with hq | hq
      · rcases hps with ⟨rfl, -⟩ | ⟨rfl, -⟩
        · obtain rfl := List.mem_singleton.mp hq
          cases hx
          exact hknown
        · cases hq
      · exact h.known x (mem_unfinished.mpr (.inr (.inl ⟨q, hq, hx⟩)))
    · rcases List.mem_append.mp hx with hx | hx
      · exact h.known x (mem_unfinished.mpr (.inr (.inr hx)))
      · rcases hps with ⟨-, rfl⟩ | ⟨-, rfl⟩
        · cases hx
        · cases List.mem_singleton.mp hx
          exact hknown
  · rw [hlog]
    rcases List.mem_append.mp hq with hq | hq
    · rcases hps with ⟨rfl, -⟩ | ⟨rfl, -⟩
      · obtain rfl := List.mem_singleton.mp hq
        exact ⟨hknown, fun x hx => (Option.some.inj hx).symm⟩
      · cases hq
    · exact h.own q hq

/-- A job is enqueued. -/
theorem Accounted.enqueues {s : Queues} {running : List Running} {log : List QueueEvent}
    (h : Accounted ⟨s, running, log⟩) (e : Event) :
    Accounted ⟨{ s with waiting := s.waiting ++ [⟨e, 0, 0⟩] }, running, log ++ [.enqueued e]⟩ := by
  have hevents : ∀ x, x ∈ ({ s with waiting := s.waiting ++ [⟨e, 0, 0⟩] } : Queues).events ↔
      x ∈ s.events ∨ x = e := by
    simp [Queues.events, or_comm, or_left_comm]
  have hlog : ∀ x, .enqueued x ∈ log ++ [.enqueued e] ↔ .enqueued x ∈ log ∨ x = e := by simp
  have hdropped : ∀ x, .dropped x ∈ log ++ [.enqueued e] ↔ .dropped x ∈ log := by simp
  refine ⟨fun x hx => ?_, fun x hx => ?_, fun q hq => ?_⟩
  · rw [mem_unfinished, hevents, hdropped]
    rcases (hlog x).mp hx with hx | rfl
    · refine (h.accounted x hx).imp_right fun hx => ?_
      rcases mem_unfinished.mp hx with hx | hx | hx
      · exact .inl (.inl hx)
      · exact .inr (.inl hx)
      · exact .inr (.inr hx)
    · exact .inr (.inl (.inr rfl))
  · rw [hlog]
    rw [mem_unfinished, hevents, hdropped] at hx
    rcases hx with (hx | rfl) | hx | hx
    · exact .inl (h.known x (mem_unfinished.mpr (.inl hx)))
    · exact .inr rfl
    · exact .inl (h.known x (mem_unfinished.mpr (.inr (.inl hx))))
    · exact .inl (h.known x (mem_unfinished.mpr (.inr (.inr hx))))
  · exact ⟨List.mem_append_left _ (h.own q hq).1, (h.own q hq).2⟩

/-- **No event is lost track of.** -/
theorem Accounted.exec {P P' : Pool Queues Running QueueEvent} {a : Act Told Signal}
    {seen : List QueueEvent} (h : Accounted P)
    (hexec : (queueRules feeOf validDate).exec P a = .ok (P', seen)) : Accounted P' := by
  obtain ⟨s, running, log⟩ := P
  rcases exec_cases hexec with ⟨before, p, after, told, s', ps, rfl, hrun, hs, rfl⟩ |
    ⟨signal, s', ps, rfl, hs, rfl⟩
  · obtain rfl : running = before ++ p :: after := hrun
    exact h.works (runJob_worked (Option.some.inj hs))
  · cases signal with
    | take i => exact h.takes hs
    | setReady isReady =>
      cases hs
      simpa using (⟨h.accounted, h.known, h.own⟩ : Accounted ⟨{ s with isReady }, running, log⟩)
    | enqueue e =>
      cases hs
      exact h.enqueues e

/-! ### Steps in order -/

/-- A step that leaves the row and enqueues nothing leaves the cursor safe. -/
theorem Safe.of_row {P P' : Pool Queues Running QueueEvent} (h : Safe P)
    (hrow : P'.shared.store.cursor.row = P.shared.store.cursor.row)
    (hkeeps : ∀ x, P.shared.store.db.HasEvent x → P'.shared.store.db.HasEvent x)
    (hlog : ∀ x, .enqueued x ∈ P'.log → .enqueued x ∈ P.log) : Safe P' := fun e he hbelow =>
  hkeeps e (h e (hlog e he) (hrow ▸ hbelow))

theorem takeUp_store {s s' : Queues} {i : ℕ} {ps : List Running} {seen : List QueueEvent}
    (h : takeUp s i = some (s', ps, seen)) :
    s'.store = s.store ∧ ∀ x, .enqueued x ∉ seen := by
  obtain ⟨job, -, hstore, -, -, hps⟩ := takeUp_cases h
  refine ⟨hstore, fun x => ?_⟩
  rcases hps with ⟨-, rfl⟩ | ⟨-, rfl⟩ <;> simp

/-- The worker is about to move the cursor, and will be answered. -/
def Advancing (p : Running) (told : Told) (ledger : ℤ) : Prop :=
  told = .reply .served ∧ p.work = .checkpoint (.upsert ledger)

theorem runJob_row {s s' : Queues} {p : Running} {told : Told} {ps : List Running}
    {seen : List QueueEvent} (h : runJob feeOf validDate s p told = (s', ps, seen))
    (hnot : ∀ ledger, ¬ Advancing p told ledger) :
    s'.store.cursor.row = s.store.cursor.row := by
  cases told with
  | dies =>
    cases h
    exact congrArg (fun t : Store => t.cursor.row) (stall_store s p.job)
  | reply r =>
    have hrow : (handle feeOf validDate s.store p.job.event p.work r).1.cursor.row
        = s.store.cursor.row := by
      refine handle_row fun ledger hwork => ?_
      cases r with
      | failed => rfl
      | served => exact absurd ⟨rfl, hwork⟩ (hnot ledger)
    simp only [runJob] at h
    split at h <;> cases h
    · exact hrow
    · exact hrow
    · simpa using hrow

theorem inOrder_of_not {s : Queues} {before after : List Running} {p : Running} {told : Told}
    {log : List QueueEvent} (hnot : ∀ ledger, ¬ Advancing p told ledger) :
    InOrder ⟨s, before ++ p :: after, log⟩ (.step before.length told) := by
  cases told with
  | dies => trivial
  | reply r =>
    cases r with
    | failed => trivial
    | served =>
      intro q hq
      obtain rfl : p = q := by simpa using hq
      obtain ⟨job, work⟩ := p
      rcases work with k | (ledger | ledger | ledger)
      · trivial
      · trivial
      · trivial
      · exact absurd ⟨rfl, rfl⟩ (hnot ledger)

/-- The cursor is moved in the midst of the jobs. -/
theorem safe_advancing {s s' : Queues} {before after ps : List Running} {p : Running} {told : Told}
    {log seen : List QueueEvent} {ledger : ℤ} (h : Accounted ⟨s, before ++ p :: after, log⟩)
    (hs : runJob feeOf validDate s p told = (s', ps, seen)) (hadv : Advancing p told ledger) :
    Safe ⟨s', before ++ ps ++ after, log ++ seen⟩ ↔
      InOrder ⟨s, before ++ p :: after, log⟩ (.step before.length told) := by
  obtain ⟨job, work⟩ := p
  obtain ⟨rfl, rfl : work = _⟩ := hadv
  cases hs
  have hlog : ∀ x, .enqueued x ∈ log ++ [.acknowledged job.event] ↔ .enqueued x ∈ log := by simp
  constructor
  · intro hsafe q hq
    obtain rfl : ⟨job, .checkpoint (.upsert ledger)⟩ = q := by simpa using hq
    exact fun e he hbelow => hsafe e ((hlog e).mpr (h.known e he)) hbelow
  · intro horder e he hbelow
    rcases h.accounted e ((hlog e).mp he) with hstored | hunfinished
    · exact hstored
    · exact horder ⟨job, .checkpoint (.upsert ledger)⟩ (by simp) e hunfinished hbelow

theorem SafeAfter.safe {P P' : Pool Queues Running QueueEvent} {a : Act Told Signal}
    {seen : List QueueEvent} (h : SafeAfter feeOf validDate P a)
    (hexec : (queueRules feeOf validDate).exec P a = .ok (P', seen)) : Safe P' := by
  rw [SafeAfter, hexec] at h
  exact h

/-- A step that cannot be made is no step out of order. -/
theorem inOrder_of_stuck {P : Pool Queues Running QueueEvent} {a : Act Told Signal}
    (h : (queueRules feeOf validDate).exec P a = .error ()) : InOrder P a := by
  cases a with
  | step i told =>
    cases hp : P.running[i]? with
    | none =>
      cases told with
      | dies => trivial
      | reply r =>
        cases r with
        | failed => trivial
        | served => exact fun p hp' => by cases hp.symm.trans hp'
    | some p => simp [Rules.exec, queueRules, hp] at h
  | outside signal =>
    cases signal with
    | enqueue e => simp [Rules.exec, queueRules] at h
    | take i => trivial
    | setReady isReady => trivial

/-- After a step the cursor is as safe as the step is in order. -/
theorem safeAfter_iff {P : Pool Queues Running QueueEvent} (h : Accounted P) (hsafe : Safe P)
    (a : Act Told Signal) : SafeAfter feeOf validDate P a ↔ InOrder P a := by
  rw [SafeAfter]
  cases hexec : (queueRules feeOf validDate).exec P a with
  | error _ => exact iff_of_true trivial (inOrder_of_stuck hexec)
  | ok x =>
    obtain ⟨P', seen⟩ := x
    change Safe P' ↔ InOrder P a
    obtain ⟨s, running, log⟩ := P
    rcases exec_cases hexec with ⟨before, p, after, told, s', ps, rfl, hrun, hs, rfl⟩ |
      ⟨signal, s', ps, rfl, hs, rfl⟩
    · obtain rfl : running = before ++ p :: after := hrun
      have hs : runJob feeOf validDate s p told = (s', ps, seen) := Option.some.inj hs
      by_cases hadv : ∃ ledger, Advancing p told ledger
      · obtain ⟨ledger, hadv⟩ := hadv
        exact safe_advancing h hs hadv
      · have hnot : ∀ ledger, ¬ Advancing p told ledger := fun ledger h => hadv ⟨ledger, h⟩
        have hw := runJob_worked hs
        refine iff_of_true (hsafe.of_row (runJob_row hs hnot) hw.keeps fun x hx => ?_)
          (inOrder_of_not hnot)
        exact (List.mem_append.mp hx).resolve_right fun hx => absurd (hw.seen _ hx) nofun
    · cases signal with
      | take i =>
        obtain ⟨hstore, hseen⟩ := takeUp_store hs
        refine iff_of_true (hsafe.of_row (congrArg (fun t : Store => t.cursor.row) hstore)
          (fun x hx => ?_) fun x hx => (List.mem_append.mp hx).resolve_right (hseen x)) trivial
        change s'.store.db.HasEvent x
        rw [hstore]
        exact hx
      | setReady isReady =>
        cases hs
        exact iff_of_true (hsafe.of_row rfl (fun _ hx => hx) fun x hx => by simpa using hx) trivial
      | enqueue e =>
        cases hs
        refine ⟨fun hsafe' => hsafe' e (by simp), fun horder x hx hbelow => ?_⟩
        have hx : .enqueued x ∈ log ++ [.enqueued e] := hx
        rcases List.mem_append.mp hx with hx | hx
        · exact hsafe x hx hbelow
        · cases List.mem_singleton.mp hx
          exact horder hbelow

/-! ### Runs in order -/

/-- Before anything is enqueued, whatever the tables and the cursor hold. -/
def fresh (store : Store) (isReady : Bool) : Pool Queues Running QueueEvent :=
  ⟨⟨store, isReady, [], []⟩, [], []⟩

theorem accounted_fresh (store : Store) (isReady : Bool) : Accounted (fresh store isReady) := by
  refine ⟨?_, ?_, ?_⟩ <;> simp [fresh, unfinished, Queues.events]

theorem safe_fresh (store : Store) (isReady : Bool) : Safe (fresh store isReady) := by
  simp [Safe, fresh]

theorem safeAlong_of_inOrder {store : Store} {isReady : Bool} {acts : List (Act Told Signal)}
    (h : Along (queueRules feeOf validDate).exec InOrder (fresh store isReady) acts) :
    Along (queueRules feeOf validDate).exec (SafeAfter feeOf validDate) (fresh store isReady)
      acts := by
  refine h.imp_of_invariant (I := fun P => Accounted P ∧ Safe P) (fun P a P' seen h horder hexec =>
    ⟨h.1.exec hexec, ?_⟩) (fun P a h horder => (safeAfter_iff h.1 h.2 a).mpr horder)
    ⟨accounted_fresh store isReady, safe_fresh store isReady⟩
  exact ((safeAfter_iff h.1 h.2 a).mpr horder).safe hexec

theorem inOrder_of_safeAlong {store : Store} {isReady : Bool} {acts : List (Act Told Signal)}
    (h : Along (queueRules feeOf validDate).exec (SafeAfter feeOf validDate) (fresh store isReady)
      acts) : Along (queueRules feeOf validDate).exec InOrder (fresh store isReady) acts := by
  exact h.imp_of_invariant (I := fun P => Accounted P ∧ Safe P)
    (fun P a P' seen h hafter hexec => ⟨h.1.exec hexec, hafter.safe hexec⟩)
    (fun P a h hafter => (safeAfter_iff h.1 h.2 a).mp hafter)
    ⟨accounted_fresh store isReady, safe_fresh store isReady⟩

/-- **When the checkpoint is safe.** At no time in a run is an event enqueued below the cursor and
not stored, exactly if every step of the run is in order. -/
theorem checkpoint_safe_iff (feeOf : String → ℤ → String) (validDate : String → Bool)
    (store : Store) (isReady : Bool) (acts : List (Act Told Signal)) :
    Along (queueRules feeOf validDate).exec (SafeAfter feeOf validDate) (fresh store isReady) acts ↔
      Along (queueRules feeOf validDate).exec InOrder (fresh store isReady) acts :=
  ⟨inOrder_of_safeAlong, safeAlong_of_inOrder⟩

/-- A fee collection of a ledger. -/
def sampleFees (eventId : String) (ledger : ℕ) : Event :=
  .feesCollected ⟨eventId, some ledger, "P", "R", "1", "1"⟩

/-- Two events are enqueued, of ledgers 5 and 10, and the second is handled first. -/
def passingRun : List (Act Told Signal) :=
  [.outside (.enqueue (sampleFees "5-0" 5)), .outside (.enqueue (sampleFees "10-0" 10)),
    .outside (.take 1)] ++ List.replicate 5 (.step 0 (.reply .served))

/-- The cursor is at 10, and the event of ledger 5 still waits. -/
theorem checkpoint_passes_waiting :
    ¬ ∀ feeOf validDate store isReady acts, Along (queueRules feeOf validDate).exec
      (SafeAfter feeOf validDate) (fresh store isReady) acts := by
  intro h
  have horder := inOrder_of_safeAlong
    (h sampleFee (fun _ => true) ⟨.empty, ⟨none, none⟩⟩ true passingRun)
  revert horder
  decide

end Swyft.Indexer
