import Swyft.Alerts.Fanout
import Mathlib.Algebra.Order.Group.Abs
import Mathlib.Tactic.Linarith

/-!
# How often an alert fires

An execution of `checkAndTriggerAlerts` is a process. It selects the thresholds that are due; then,
one after the other, it enters each in the history, marks it as triggered and dispatches its event.
Each is one command, which may fail, and between two commands other executions may run, time may
pass and wallets may change their thresholds.

## What is deliberately absent

Which of the deliveries of one event fail: `dispatch` is served as a whole, or fails.

## Main results

* `spaced_of_orderly` — two entries for one threshold are a day apart, if no threshold is selected
  while another execution is about it and no marking fails
* `checkAndTriggerAlerts_reaches` — an execution that nothing disturbs is
  `Database.checkAndTriggerAlerts`
-/

namespace Swyft.Alerts

open Interleaving

/-! ### Executions -/

/-- The database, the ids that thresholds have ever had, and the time. -/
structure Alerting where
  db : Database
  issued : List String
  now : ℤ

/-- What an execution has still to do. -/
inductive Checking where
  | finding (pool : Pool) (currentTvlUsd : ℚ) (since : ℤ)
  /-- The loop, before the next of the thresholds that are left. -/
  | iterating (pool : Pool) (currentTvlUsd : ℚ) (rest : List TvlAlertThreshold)
  | creating (pool : Pool) (currentTvlUsd : ℚ) (threshold : TvlAlertThreshold) (breachedAt : ℤ)
    (rest : List TvlAlertThreshold)
  | updating (pool : Pool) (currentTvlUsd : ℚ) (threshold : TvlAlertThreshold) (breachedAt : ℤ)
    (rest : List TvlAlertThreshold)
  | dispatching (pool : Pool) (currentTvlUsd : ℚ) (threshold : TvlAlertThreshold) (breachedAt : ℤ)
    (rest : List TvlAlertThreshold)
  deriving DecidableEq

inductive AlertSeen where
  | recorded (entry : TvlAlertHistory)
  | sent (deliveries : List Delivery)
  deriving DecidableEq

inductive AlertOccurrence where
  | checkAndTriggerAlerts (pool : Pool) (currentTvlUsd : ℚ)
  | pass (milliseconds : ℕ)
  | setThreshold (ownerWallet : String) (data : TvlAlertThresholdCreate) (newId : String)
  | disableThreshold (id ownerWallet : String)
  | deleteThreshold (id ownerWallet : String)
  deriving DecidableEq

namespace Alerting

def start (db : Database) : Alerting := ⟨db, db.thresholds.rows.map (·.id), 0⟩

/-- The next command of an execution, told whether it is served. The history and the table of
thresholds are linked: there is no entry for a row that is gone. -/
def step (s : Alerting) :
    Checking → Bool → Option (Alerting × List Checking × List AlertSeen)
  | .finding pool currentTvlUsd since, true =>
    some (s, [.iterating pool currentTvlUsd (s.db.thresholds.due pool.id currentTvlUsd since)], [])
  | .finding .., false => some (s, [], [])
  | .iterating _ _ [], _ => some (s, [], [])
  | .iterating pool currentTvlUsd (t :: rest), _ =>
    some (s, [.creating pool currentTvlUsd t s.now rest], [])
  | .creating pool currentTvlUsd t breachedAt rest, served =>
    if served ∧ t.id ∈ s.db.thresholds.rows.map (·.id) then
      let entry := t.entry pool currentTvlUsd breachedAt
      some ({ s with db.history := s.db.history ++ [entry] },
        [.updating pool currentTvlUsd t breachedAt rest], [.recorded entry])
    else some (s, [.iterating pool currentTvlUsd rest], [])
  | .updating pool currentTvlUsd t breachedAt rest, served =>
    if served ∧ t.id ∈ s.db.thresholds.rows.map (·.id) then
      some ({ s with db.thresholds := s.db.thresholds.trigger t.id breachedAt },
        [.dispatching pool currentTvlUsd t breachedAt rest], [])
    else some (s, [.iterating pool currentTvlUsd rest], [])
  | .dispatching pool currentTvlUsd t breachedAt rest, true =>
    some (s, [.iterating pool currentTvlUsd rest],
      [.sent (dispatch s.db.webhooks s.now (.breach pool currentTvlUsd t breachedAt))])
  | .dispatching pool currentTvlUsd _ _ rest, false =>
    some (s, [.iterating pool currentTvlUsd rest], [])

def outside (s : Alerting) :
    AlertOccurrence → Option (Alerting × List Checking × List AlertSeen)
  | .checkAndTriggerAlerts pool currentTvlUsd =>
    some (s, [.finding pool currentTvlUsd (s.now - day)], [])
  | .pass milliseconds => some ({ s with now := s.now + milliseconds }, [], [])
  | .setThreshold ownerWallet data newId =>
    if newId ∈ s.issued then none
    else (s.db.thresholds.setThreshold ownerWallet data newId).map fun thresholds =>
      ({ s with db.thresholds := thresholds, issued := newId :: s.issued }, [], [])
  | .disableThreshold id ownerWallet =>
    some ({ s with db.thresholds := s.db.thresholds.disableThreshold id ownerWallet }, [], [])
  | .deleteThreshold id ownerWallet =>
    let thresholds := s.db.thresholds.deleteThreshold id ownerWallet
    -- What the history has of a row goes with it.
    let history := s.db.history.filter (·.thresholdId ∈ thresholds.rows.map (·.id))
    some ({ s with db.thresholds := thresholds, db.history := history }, [], [])

def rules : Rules Alerting Checking Bool AlertOccurrence AlertSeen := ⟨step, outside⟩

end Alerting

/-! ### Spacing -/

/-- The entries that were recorded. -/
def entries (log : List AlertSeen) : List TvlAlertHistory :=
  log.filterMap fun
    | .recorded entry => some entry
    | .sent _ => none

theorem entries_append (log seen : List AlertSeen) :
    entries (log ++ seen) = entries log ++ entries seen := List.filterMap_append

/-- Two entries for one threshold are at least a day apart. -/
def Spaced (entries : List TvlAlertHistory) : Prop :=
  entries.Pairwise fun e e' => e.thresholdId = e'.thresholdId → day ≤ |e'.breachedAt - e.breachedAt|

/-- The thresholds that an execution has still to trigger. -/
def Checking.pending : Checking → List String
  | finding .. => []
  | iterating _ _ rest | dispatching _ _ _ _ rest => rest.map (·.id)
  | creating _ _ t _ rest | updating _ _ t _ rest => (t :: rest).map (·.id)

/-- A threshold is selected only while no execution has it to trigger, and marking a threshold as
triggered does not fail. -/
def Checking.Orderly (P : Interleaving.Pool Alerting Checking AlertSeen) (served : Bool) :
    Checking → Prop
  | finding pool currentTvlUsd since => served = true →
    ∀ t ∈ P.shared.db.thresholds.due pool.id currentTvlUsd since, ∀ q ∈ P.running,
      t.id ∉ q.pending
  | updating .. => served = true
  | _ => True

/-- Every step of an execution is orderly. -/
def Orderly (P : Interleaving.Pool Alerting Checking AlertSeen) : Act Bool AlertOccurrence → Prop
  | .step i served => ∀ p ∈ P.running[i]?, p.Orderly P served
  | .outside _ => True

/-- Nobody changes a threshold. -/
def Unchanged (_ : Interleaving.Pool Alerting Checking AlertSeen) :
    Act Bool AlertOccurrence → Prop
  | .outside (.setThreshold ..) | .outside (.disableThreshold ..)
  | .outside (.deleteThreshold ..) => False
  | _ => True

/-- The entries for a threshold are of a time or earlier. -/
def Before (history : List TvlAlertHistory) (id : String) (time : ℤ) : Prop :=
  ∀ e ∈ history, e.thresholdId = id → e.breachedAt ≤ time

namespace Checking

/-- An execution is about to mark a threshold. -/
def Marks (id : String) : Checking → Prop
  | updating _ _ t _ _ => t.id = id
  | _ => False

/-- What an execution knows of the thresholds that it has to trigger. -/
def Knows (now : ℤ) (history : List TvlAlertHistory) : Checking → Prop
  | finding _ _ since => since ≤ now - day
  | iterating _ _ rest | dispatching _ _ _ _ rest => ∀ t ∈ rest, Before history t.id (now - day)
  | creating _ _ t breachedAt rest =>
    Before history t.id (breachedAt - day) ∧ ∀ t ∈ rest, Before history t.id (now - day)
  | updating _ _ t breachedAt rest =>
    Before history t.id breachedAt ∧ ∀ t ∈ rest, Before history t.id (now - day)

end Checking

/-- What every state of an orderly run keeps. -/
structure Ordered (s : Alerting) (running : List Checking) (history : List TvlAlertHistory) :
    Prop where
  issuedRows : ∀ t ∈ s.db.thresholds.rows, t.id ∈ s.issued
  issuedPending : ∀ p ∈ running, ∀ id ∈ p.pending, id ∈ s.issued
  issuedHistory : ∀ e ∈ history, e.thresholdId ∈ s.issued
  /-- No two executions have a threshold to trigger. -/
  apart : (running.flatMap Checking.pending).Nodup
  knows : ∀ p ∈ running, p.Knows s.now history
  /-- A threshold that no execution is about to mark was last triggered when it says. -/
  marked : ∀ t ∈ s.db.thresholds.rows, (∃ p ∈ running, p.Marks t.id) ∨
    ∀ e ∈ history, e.thresholdId = t.id → ∃ last ∈ t.lastTriggeredAt, e.breachedAt ≤ last
  spaced : Spaced history

variable {s s' : Alerting} {before after running ps : List Checking} {p : Checking}
  {history : List TvlAlertHistory} {id : String} {time time' now now' since breachedAt : ℤ}
  {pool : Pool} {currentTvlUsd : ℚ} {t : TvlAlertThreshold} {rest : List TvlAlertThreshold}
  {e : TvlAlertHistory}

/-! #### What is known of the history -/

theorem Before.mono (h : Before history id time) (hle : time ≤ time') :
    Before history id time' :=
  fun e he hid => (h e he hid).trans hle

/-- An entry for another threshold does not matter. -/
theorem Before.snoc_of_ne (h : Before history id time) (hne : e.thresholdId ≠ id) :
    Before (history ++ [e]) id time := by
  intro e' he' hid
  rcases List.mem_append.mp he' with he' | he'
  · exact h e' he' hid
  · obtain rfl := List.mem_singleton.mp he'
    exact absurd hid hne

theorem Before.snoc (h : Before history id time) (hle : e.breachedAt ≤ time) :
    Before (history ++ [e]) id time := by
  intro e' he' hid
  rcases List.mem_append.mp he' with he' | he'
  · exact h e' he' hid
  · obtain rfl := List.mem_singleton.mp he'
    exact hle

theorem Spaced.snoc (h : Spaced history) (hbefore : Before history e.thresholdId
    (e.breachedAt - day)) : Spaced (history ++ [e]) := by
  refine List.pairwise_append.mpr ⟨h, List.pairwise_singleton _ e, ?_⟩
  intro e' he' e'' he'' hid
  obtain rfl := List.mem_singleton.mp he''
  have hle := hbefore e' he' hid
  exact le_abs.mpr (.inl (by linarith))

namespace Checking

theorem Marks.mem_pending (h : p.Marks id) : id ∈ p.pending := by
  cases p with
  | updating pool currentTvlUsd t breachedAt rest => exact h ▸ .head _
  | finding | iterating | creating | dispatching => exact absurd h not_false

theorem Knows.mono (h : p.Knows now history) (hle : now ≤ now') : p.Knows now' history := by
  have hrest : ∀ rest : List TvlAlertThreshold, (∀ t ∈ rest, Before history t.id (now - day)) →
      ∀ t ∈ rest, Before history t.id (now' - day) :=
    fun rest h t ht => (h t ht).mono (Int.sub_le_sub_right hle day)
  cases p with
  | finding pool currentTvlUsd since => exact Int.le_trans h (Int.sub_le_sub_right hle day)
  | iterating pool currentTvlUsd rest => exact hrest rest h
  | creating pool currentTvlUsd t breachedAt rest => exact ⟨h.1, hrest rest h.2⟩
  | updating pool currentTvlUsd t breachedAt rest => exact ⟨h.1, hrest rest h.2⟩
  | dispatching pool currentTvlUsd t breachedAt rest => exact hrest rest h

/-- An entry for a threshold that an execution has not to trigger does not matter to it. -/
theorem Knows.snoc (h : p.Knows now history) (hne : e.thresholdId ∉ p.pending) :
    p.Knows now (history ++ [e]) := by
  have hrest : ∀ rest : List TvlAlertThreshold, e.thresholdId ∉ rest.map (·.id) →
      (∀ t ∈ rest, Before history t.id (now - day)) →
        ∀ t ∈ rest, Before (history ++ [e]) t.id (now - day) :=
    fun rest hne h t ht => (h t ht).snoc_of_ne fun heq => hne (heq ▸ List.mem_map_of_mem ht)
  cases p with
  | finding pool currentTvlUsd since => exact h
  | iterating pool currentTvlUsd rest => exact hrest rest hne h
  | creating pool currentTvlUsd t breachedAt rest =>
    exact ⟨h.1.snoc_of_ne fun heq => hne (heq ▸ .head _),
      hrest rest (fun hmem => hne (.tail _ hmem)) h.2⟩
  | updating pool currentTvlUsd t breachedAt rest =>
    exact ⟨h.1.snoc_of_ne fun heq => hne (heq ▸ .head _),
      hrest rest (fun hmem => hne (.tail _ hmem)) h.2⟩
  | dispatching pool currentTvlUsd t breachedAt rest => exact hrest rest hne h

end Checking

/-! #### One command -/

namespace Ordered

/-- What an execution has to trigger, no other has. -/
theorem apart_iff : ((before ++ ps ++ after).flatMap Checking.pending).Nodup ↔
    (ps.flatMap Checking.pending ++ (before ++ after).flatMap Checking.pending).Nodup := by
  rw [← List.flatMap_append, List.append_assoc]
  exact (List.Perm.flatMap_right _ (List.perm_append_comm_assoc before ps after)).nodup_iff

theorem pending_apart (h : Ordered s (before ++ [p] ++ after) history) :
    ∀ q ∈ before ++ after, ∀ id ∈ p.pending, id ∉ q.pending := by
  intro q hq id hid hmem
  have hnodup := apart_iff.mp h.apart
  rw [List.flatMap_singleton] at hnodup
  exact List.disjoint_of_nodup_append hnodup hid (List.mem_flatMap.mpr ⟨q, hq, hmem⟩)

theorem mem_replace {q : Checking} :
    q ∈ before ++ ps ++ after ↔ q ∈ ps ∨ q ∈ before ++ after := by
  simp only [List.mem_append, or_assoc, or_left_comm]

theorem mem_self : p ∈ before ++ [p] ++ after := mem_replace.mpr (.inl (.head _))

/-- What holds of an execution in its new state and of all others. -/
theorem forall_replace {Q : Checking → Prop} (hps : ∀ q ∈ ps, Q q)
    (hothers : ∀ q ∈ before ++ after, Q q) : ∀ q ∈ before ++ ps ++ after, Q q :=
  fun q hq => (mem_replace.mp hq).elim (hps q) (hothers q)

/-- An execution that still marks a threshold is another than one that does not. -/
theorem exists_marks_replace {id : String} (hnot : ¬ p.Marks id)
    (h : ∃ q ∈ before ++ [p] ++ after, q.Marks id) :
    ∃ q ∈ before ++ ps ++ after, q.Marks id := by
  obtain ⟨q, hq, hmarks⟩ := h
  rcases mem_replace.mp hq with hq | hq
  · obtain rfl := List.mem_singleton.mp hq
    exact absurd hmarks hnot
  · exact ⟨q, mem_replace.mpr (.inr hq), hmarks⟩

/-- An execution goes on without a change of the tables. -/
theorem replace (h : Ordered s (before ++ [p] ++ after) history)
    (hpending : (ps.flatMap Checking.pending).Sublist p.pending)
    (hknows : ∀ q ∈ ps, q.Knows s.now history)
    (hmarks : ∀ t ∈ s.db.thresholds.rows, ¬ p.Marks t.id) :
    Ordered s (before ++ ps ++ after) history where
  issuedRows := h.issuedRows
  issuedPending := by
    refine forall_replace (fun q hq id hid => ?_) fun q hq =>
      h.issuedPending q (mem_replace.mpr (.inr hq))
    exact h.issuedPending p mem_self id (hpending.subset (List.mem_flatMap.mpr ⟨q, hq, hid⟩))
  issuedHistory := h.issuedHistory
  apart := by
    have hnodup := apart_iff.mp h.apart
    rw [List.flatMap_singleton] at hnodup
    exact apart_iff.mpr (hnodup.sublist (hpending.append_right _))
  knows := forall_replace hknows fun q hq => h.knows q (mem_replace.mpr (.inr hq))
  marked t ht := (h.marked t ht).imp_left (exists_marks_replace (hmarks t ht))
  spaced := h.spaced

/-- An execution ends. -/
theorem leave (h : Ordered s (before ++ [p] ++ after) history) (hmarks : ∀ id, ¬ p.Marks id) :
    Ordered s (before ++ [] ++ after) history :=
  h.replace (List.nil_sublist _) (fun _ hq => absurd hq List.not_mem_nil) fun t _ => hmarks t.id

/-- An execution goes on as another. -/
theorem goOn {q : Checking} (h : Ordered s (before ++ [p] ++ after) history)
    (hpending : q.pending.Sublist p.pending) (hknows : q.Knows s.now history)
    (hmarks : ∀ t ∈ s.db.thresholds.rows, ¬ p.Marks t.id) :
    Ordered s (before ++ [q] ++ after) history := by
  refine h.replace ?_ (List.forall_mem_singleton.mpr hknows) hmarks
  rwa [List.flatMap_singleton]

/-- A threshold that no execution has to trigger and that is due has no recent entry. -/
theorem before_of_due (h : Ordered s running history)
    (ht : t ∈ s.db.thresholds.due pool.id currentTvlUsd since)
    (halone : ∀ q ∈ running, t.id ∉ q.pending) : Before history t.id since := by
  obtain ⟨hmem, hdue⟩ := List.mem_filter.mp ht
  intro e he hid
  rcases h.marked t hmem with ⟨q, hq, hmarks⟩ | hlast
  · exact absurd hmarks.mem_pending (halone q hq)
  · obtain ⟨last, hlast, hle⟩ := hlast e he hid
    exact hle.trans (Int.le_of_lt ((of_decide_eq_true hdue).lt last hlast))

/-- Thresholds are selected that no execution has to trigger. -/
theorem select
    (h : Ordered s (before ++ [.finding pool currentTvlUsd since] ++ after) history)
    (halone : ∀ t ∈ s.db.thresholds.due pool.id currentTvlUsd since,
      ∀ q ∈ before ++ [.finding pool currentTvlUsd since] ++ after, t.id ∉ q.pending) :
    Ordered s (before ++ [.iterating pool currentTvlUsd
      (s.db.thresholds.due pool.id currentTvlUsd since)] ++ after) history where
  issuedRows := h.issuedRows
  issuedPending := by
    refine forall_replace (List.forall_mem_singleton.mpr fun id hid => ?_) fun q hq =>
      h.issuedPending q (mem_replace.mpr (.inr hq))
    obtain ⟨t, ht, rfl⟩ := List.mem_map.mp hid
    exact h.issuedRows t (List.mem_of_mem_filter ht)
  issuedHistory := h.issuedHistory
  apart := by
    have hnodup := apart_iff.mp h.apart
    refine apart_iff.mpr (List.Nodup.append ?_ hnodup.of_append_right ?_)
    · rw [List.flatMap_singleton]
      exact s.db.thresholds.ids.sublist (List.filter_sublist.map _)
    · intro id hid hmem
      rw [List.flatMap_singleton] at hid
      obtain ⟨t, ht, rfl⟩ := List.mem_map.mp hid
      obtain ⟨q, hq, hid⟩ := List.mem_flatMap.mp hmem
      exact halone t ht q (mem_replace.mpr (.inr hq)) hid
  knows := by
    have hsince : since ≤ s.now - day := h.knows _ mem_self
    refine forall_replace (List.forall_mem_singleton.mpr fun t ht => ?_) fun q hq =>
      h.knows q (mem_replace.mpr (.inr hq))
    exact (h.before_of_due ht (halone t ht)).mono hsince
  marked t ht := (h.marked t ht).imp_left (exists_marks_replace (by exact not_false))
  spaced := h.spaced

/-- An entry is recorded. -/
theorem record {history' : List TvlAlertHistory}
    (h : Ordered s (before ++ [.creating pool currentTvlUsd t breachedAt rest] ++ after) history) :
    Ordered { s with db.history := history' }
      (before ++ [.updating pool currentTvlUsd t breachedAt rest] ++ after)
      (history ++ [t.entry pool currentTvlUsd breachedAt]) where
  issuedRows := h.issuedRows
  issuedPending := by
    have hpending := h.issuedPending (.creating pool currentTvlUsd t breachedAt rest) mem_self
    exact forall_replace (List.forall_mem_singleton.mpr hpending) fun q hq =>
      h.issuedPending q (mem_replace.mpr (.inr hq))
  issuedHistory e he := by
    rcases List.mem_append.mp he with he | he
    · exact h.issuedHistory e he
    · obtain rfl := List.mem_singleton.mp he
      exact h.issuedPending _ mem_self t.id (.head _)
  apart := by
    have hnodup := apart_iff.mp h.apart
    exact apart_iff.mpr hnodup
  knows := by
    obtain ⟨hbefore, hrest⟩ := h.knows _ mem_self
    have hids : (t.id :: rest.map (·.id)).Nodup := by
      have hnodup := apart_iff.mp h.apart
      rw [List.flatMap_singleton] at hnodup
      exact hnodup.of_append_left
    refine forall_replace (List.forall_mem_singleton.mpr ⟨?_, fun t' ht' => ?_⟩) fun q hq => ?_
    · exact (hbefore.mono (by simp [day])).snoc (Int.le_refl _)
    · refine (hrest t' ht').snoc_of_ne fun heq => ?_
      exact (List.nodup_cons.mp hids).1 (List.mem_map.mpr ⟨t', ht', heq.symm⟩)
    · exact (h.knows q (mem_replace.mpr (.inr hq))).snoc (h.pending_apart q hq t.id (.head _))
  marked t' ht' := by
    by_cases hid : t.id = t'.id
    · exact .inl ⟨_, mem_self, hid⟩
    · rcases h.marked t' ht' with hmarks | hlast
      · exact .inl (exists_marks_replace (by exact not_false) hmarks)
      · refine .inr fun e he heq => ?_
        rcases List.mem_append.mp he with he | he
        · exact hlast e he heq
        · obtain rfl := List.mem_singleton.mp he
          exact absurd heq hid
  spaced := h.spaced.snoc (h.knows _ mem_self).1

/-- A threshold is marked as triggered. -/
theorem trigger
    (h : Ordered s (before ++ [.updating pool currentTvlUsd t breachedAt rest] ++ after) history) :
    Ordered { s with db.thresholds := s.db.thresholds.trigger t.id breachedAt }
      (before ++ [.dispatching pool currentTvlUsd t breachedAt rest] ++ after) history where
  issuedRows t' ht' := by
    obtain ⟨t'', ht'', rfl⟩ := List.mem_map.mp ht'
    split_ifs <;> exact h.issuedRows t'' ht''
  issuedPending := by
    refine forall_replace (List.forall_mem_singleton.mpr fun id hid => ?_) fun q hq =>
      h.issuedPending q (mem_replace.mpr (.inr hq))
    exact h.issuedPending _ mem_self id (.tail _ hid)
  issuedHistory := h.issuedHistory
  apart := by
    have hnodup := apart_iff.mp h.apart
    exact apart_iff.mpr (List.nodup_cons.mp hnodup).2
  knows := forall_replace (List.forall_mem_singleton.mpr (h.knows _ mem_self).2)
    fun q hq => h.knows q (mem_replace.mpr (.inr hq))
  marked t' ht' := by
    obtain ⟨t'', ht'', rfl⟩ := List.mem_map.mp ht'
    split_ifs with hid
    · have hbefore := (h.knows _ mem_self).1
      exact .inr fun e he heq => ⟨breachedAt, rfl, hbefore e he (heq.trans hid)⟩
    · have hnot : ¬ Checking.Marks t''.id (.updating pool currentTvlUsd t breachedAt rest) :=
        fun hmarks => hid hmarks.symm
      exact (h.marked t'' ht'').imp_left (exists_marks_replace hnot)
  spaced := h.spaced

/-! #### The surroundings -/

theorem start {db : Database} : Ordered (.start db) [] [] where
  issuedRows _ ht := List.mem_map_of_mem ht
  issuedPending _ hp := absurd hp List.not_mem_nil
  issuedHistory _ he := absurd he List.not_mem_nil
  apart := List.nodup_nil
  knows _ hp := absurd hp List.not_mem_nil
  marked _ _ := .inr fun _ he => absurd he List.not_mem_nil
  spaced := .nil

theorem check (h : Ordered s running history) :
    Ordered s (.finding pool currentTvlUsd (s.now - day) :: running) history where
  issuedRows := h.issuedRows
  issuedPending := List.forall_mem_cons.mpr ⟨fun _ hid => absurd hid List.not_mem_nil,
    h.issuedPending⟩
  issuedHistory := h.issuedHistory
  apart := h.apart
  knows := List.forall_mem_cons.mpr ⟨Int.le_refl _, h.knows⟩
  marked t ht := (h.marked t ht).imp_left fun ⟨q, hq, hmarks⟩ => ⟨q, .tail _ hq, hmarks⟩
  spaced := h.spaced

theorem pass (h : Ordered s running history) (milliseconds : ℕ) :
    Ordered { s with now := s.now + milliseconds } running history :=
  { h with knows := fun q hq => (h.knows q hq).mono (Int.le_add_of_nonneg_right
      (Int.natCast_nonneg _)) }

/-- The table of thresholds changes: a row is new, or was triggered when a row with its id was. -/
theorem configure (h : Ordered s running history) (hnow : s'.now = s.now)
    (hissued : s.issued ⊆ s'.issued) (hrows : ∀ t ∈ s'.db.thresholds.rows,
      (t.id ∈ s'.issued ∧ t.id ∉ s.issued) ∨
        ∃ t' ∈ s.db.thresholds.rows, t'.id = t.id ∧ t'.lastTriggeredAt = t.lastTriggeredAt) :
    Ordered s' running history where
  issuedRows t ht := by
    rcases hrows t ht with ⟨hnew, -⟩ | ⟨t', ht', hid, -⟩
    · exact hnew
    · exact hissued (hid ▸ h.issuedRows t' ht')
  issuedPending q hq id hid := hissued (h.issuedPending q hq id hid)
  issuedHistory e he := hissued (h.issuedHistory e he)
  apart := h.apart
  knows := by
    rw [hnow]
    exact h.knows
  marked t ht := by
    rcases hrows t ht with ⟨-, hnew⟩ | ⟨t', ht', hid, hlast⟩
    · exact .inr fun e he heq => absurd (heq ▸ h.issuedHistory e he) hnew
    · have hmarked := h.marked t' ht'
      rwa [hid, hlast] at hmarked
  spaced := h.spaced

end Ordered

/-- Setting a threshold adds a row with the new id, or keeps ids and the times of the last
triggers. -/
theorem mem_setThreshold {T T' : ThresholdTable} {ownerWallet newId : String}
    {data : TvlAlertThresholdCreate} (h : T.setThreshold ownerWallet data newId = some T') :
    ∀ t ∈ T'.rows, t.id = newId ∨
      ∃ t' ∈ T.rows, t'.id = t.id ∧ t'.lastTriggeredAt = t.lastTriggeredAt := by
  unfold ThresholdTable.setThreshold at h
  split_ifs at h with howner hid
  · cases h
    intro t ht
    obtain ⟨t', ht', rfl⟩ := List.mem_map.mp ht
    refine .inr ⟨t', ht', ?_⟩
    split_ifs <;> exact ⟨rfl, rfl⟩
  · cases h
    intro t ht
    rcases List.mem_append.mp ht with ht | ht
    · exact .inr ⟨t, ht, rfl, rfl⟩
    · obtain rfl := List.mem_singleton.mp ht
      exact .inl rfl

/-! #### Runs -/

/-- A step that records nothing. -/
theorem Ordered.quiet (h : Ordered s running history) :
    Ordered s running (history ++ entries []) := by
  rwa [entries, List.filterMap_nil, List.append_nil]

theorem ordered_outside {a : AlertOccurrence} {seen : List AlertSeen}
    (h : Ordered s running history) (hs : s.outside a = some (s', ps, seen)) :
    Ordered s' (ps ++ running) (history ++ entries seen) := by
  cases a with
  | checkAndTriggerAlerts pool currentTvlUsd =>
    cases hs
    exact h.check.quiet
  | pass milliseconds =>
    cases hs
    refine .quiet ?_
    exact h.pass milliseconds
  | setThreshold ownerWallet data newId =>
    rw [Alerting.outside] at hs
    split_ifs at hs with hnew
    obtain ⟨thresholds, hset, heq⟩ := Option.map_eq_some_iff.mp hs
    cases heq
    refine .quiet ?_
    refine h.configure rfl (List.subset_cons_self _ _) fun t ht => ?_
    refine (mem_setThreshold hset t ht).imp_left ?_
    rintro rfl
    exact ⟨.head _, hnew⟩
  | disableThreshold id ownerWallet =>
    cases hs
    refine .quiet ?_
    refine h.configure rfl (List.Subset.refl _) fun t ht => ?_
    obtain ⟨t', ht', rfl⟩ := List.mem_map.mp ht
    refine .inr ⟨t', ht', ?_⟩
    split_ifs <;> exact ⟨rfl, rfl⟩
  | deleteThreshold id ownerWallet =>
    cases hs
    refine .quiet ?_
    refine h.configure rfl (List.Subset.refl _) fun t ht => ?_
    exact .inr ⟨t, List.mem_of_mem_filter ht, rfl, rfl⟩

theorem ordered_step {served : Bool} {seen log : List AlertSeen}
    (h : Ordered s (before ++ [p] ++ after) history)
    (horderly : Orderly ⟨s, before ++ p :: after, log⟩ (.step before.length served))
    (hs : s.step p served = some (s', ps, seen)) :
    Ordered s' (before ++ ps ++ after) (history ++ entries seen) := by
  have horderly := forall_at_iff.mp horderly
  have hknows := h.knows p Ordered.mem_self
  cases p with
  | finding pool currentTvlUsd since =>
    cases served with
    | true =>
      cases hs
      refine .quiet ?_
      refine h.select fun t ht q hq => horderly rfl t ht q ?_
      rwa [List.append_assoc] at hq
    | false =>
      cases hs
      refine .quiet ?_
      exact h.leave fun _ => not_false
  | iterating pool currentTvlUsd rest =>
    cases rest with
    | nil =>
      cases hs
      refine .quiet ?_
      exact h.leave fun _ => not_false
    | cons t rest =>
      cases hs
      refine .quiet ?_
      exact h.goOn (.refl _) (List.forall_mem_cons.mp hknows) fun _ _ => not_false
  | creating pool currentTvlUsd t breachedAt rest =>
    simp only [Alerting.step] at hs
    split_ifs at hs with hserved
    · cases hs
      exact h.record
    · cases hs
      refine .quiet ?_
      exact h.goOn (List.sublist_cons_self _ _) hknows.2 fun _ _ => not_false
  | updating pool currentTvlUsd t breachedAt rest =>
    simp only [Alerting.step] at hs
    split_ifs at hs with hserved
    · cases hs
      exact h.trigger.quiet
    · cases hs
      refine .quiet ?_
      refine h.goOn (List.sublist_cons_self _ _) hknows.2 fun t' ht' hmarks => ?_
      -- The row is gone.
      exact hserved ⟨horderly, List.mem_map.mpr ⟨t', ht', hmarks.symm⟩⟩
  | dispatching pool currentTvlUsd t breachedAt rest =>
    have hnext : Ordered s (before ++ [.iterating pool currentTvlUsd rest] ++ after) history :=
      h.goOn (.refl _) hknows fun _ _ => not_false
    cases served with
    | true =>
      cases hs
      exact hnext.quiet
    | false =>
      cases hs
      exact hnext.quiet

variable {db : Database} {P : Interleaving.Pool Alerting Checking AlertSeen}

/-- **An alert fires at most once a day**, in every run in which no threshold is selected while an
execution has it to trigger and no marking fails. -/
theorem spaced_of_orderly (h : Reaches Alerting.rules Orderly ⟨.start db, [], []⟩ P) :
    Spaced (entries P.log) := by
  refine (h.invariant (I := fun P => Ordered P.shared P.running (entries P.log)) ?_ ?_
    .start).spaced
  · intro s before p after log served s' ps seen hI horderly hs
    rw [entries_append]
    refine ordered_step ?_ horderly hs
    rwa [List.append_assoc]
  · intro s running log a s' ps seen hI _ hs
    rw [entries_append]
    exact ordered_outside hI hs

/-- A threshold of `B`. -/
def oneThreshold : Database where
  webhooks := ⟨[], List.nodup_nil⟩
  thresholds := ⟨[⟨"t", "pool", "B", 1000, .above, true, none⟩], List.nodup_singleton _,
    List.nodup_singleton _⟩
  history := []

def poolOfTwo : Pool := ⟨"pool", "x", "y"⟩

/-- A check, served to its end. -/
def servedCheck : List (Act Bool AlertOccurrence) :=
  .outside (.checkAndTriggerAlerts poolOfTwo 2000) :: List.replicate 6 (.step 0 true)

instance (P : Interleaving.Pool Alerting Checking AlertSeen) (served : Bool) :
    DecidablePred (Checking.Orderly P served)
  | .finding pool currentTvlUsd since => inferInstanceAs (Decidable (served = true →
      ∀ t ∈ P.shared.db.thresholds.due pool.id currentTvlUsd since, ∀ q ∈ P.running,
        t.id ∉ q.pending))
  | .updating .. => inferInstanceAs (Decidable (served = true))
  | .iterating .. | .creating .. | .dispatching .. => instDecidableTrue

instance (P : Interleaving.Pool Alerting Checking AlertSeen) : DecidablePred (Orderly P)
  | .step i served => inferInstanceAs (Decidable (∀ p ∈ P.running[i]?, p.Orderly P served))
  | .outside _ => instDecidableTrue

instance (P : Interleaving.Pool Alerting Checking AlertSeen) : DecidablePred (Unchanged P)
  | .outside (.setThreshold ..) | .outside (.disableThreshold ..)
  | .outside (.deleteThreshold ..) => instDecidableFalse
  | .outside (.checkAndTriggerAlerts ..) | .outside (.pass _) | .step .. => instDecidableTrue

/-- Two checks, a day and an hour apart. -/
theorem spaced_of_orderly_daily :
    ∃ P, Alerting.rules.run ⟨.start oneThreshold, [], []⟩
        (servedCheck ++ .outside (.pass 90000000) :: servedCheck) = some P ∧
      (entries P.log).length = 2 ∧ Spaced (entries P.log) := by
  have hsome : ((Alerting.rules.run ⟨.start oneThreshold, [], []⟩
      (servedCheck ++ .outside (.pass 90000000) :: servedCheck)).map fun P =>
        (entries P.log).length) = some 2 := by
    decide +kernel
  obtain ⟨P, hP, hlen⟩ := Option.map_eq_some_iff.mp hsome
  exact ⟨P, hP, hlen, spaced_of_orderly (reaches_of_run hP (by decide +kernel))⟩

/-- Two checks select the threshold before either records an entry. -/
theorem not_spaced_together :
    ¬ ∀ db P, Reaches Alerting.rules Unchanged ⟨.start db, [], []⟩ P → Spaced (entries P.log) := by
  intro h
  have hlog : (Alerting.rules.run ⟨.start oneThreshold, [], []⟩
      [.outside (.checkAndTriggerAlerts poolOfTwo 2000),
        .outside (.checkAndTriggerAlerts poolOfTwo 2000), .step 0 true, .step 1 true, .step 0 true,
        .step 1 true, .step 0 true, .step 1 true]).map (fun P => entries P.log) =
      some [⟨"t", "pool", "B", 1000, 2000, .above, 0⟩,
        ⟨"t", "pool", "B", 1000, 2000, .above, 0⟩] := by
    decide +kernel
  obtain ⟨P, hP, hentries⟩ := Option.map_eq_some_iff.mp hlog
  have hspaced := h oneThreshold P (reaches_of_run hP (by decide +kernel))
  rw [hentries] at hspaced
  exact absurd ((List.pairwise_cons.mp hspaced).1 _ (.head _) rfl) (by decide)

/-! ### An execution that nothing disturbs -/

/-- The deliveries of a log. -/
def deliveries (log : List AlertSeen) : List Delivery :=
  log.flatMap fun
    | .recorded _ => []
    | .sent sent => sent

theorem reaches_single {C : Interleaving.Pool Alerting Checking AlertSeen →
    Act Bool AlertOccurrence → Prop} {served : Bool} {log seen : List AlertSeen}
    (h : s.step p served = some (s', ps, seen))
    (hC : C ⟨s, [p], log⟩ (.step 0 served)) :
    Reaches Alerting.rules C ⟨s, [p], log⟩ ⟨s', ps, log ++ seen⟩ := by
  have hexec : Alerting.rules.exec ⟨s, [] ++ p :: [], log⟩ (.step 0 served) = .ok (_, seen) :=
    exec_middle h
  rw [List.append_nil] at hexec
  exact .of_exec hexec hC

/-- The loop, by induction on the thresholds that are left. -/
theorem alerts_reaches (due : List TvlAlertThreshold) (s : Alerting) (log : List AlertSeen)
    (hdue : ∀ t ∈ due, t.id ∈ s.db.thresholds.rows.map (·.id)) :
    ∃ seen, Reaches Alerting.rules Unchanged ⟨s, [.iterating pool currentTvlUsd due], log⟩
        ⟨{ s with db := (s.db.alerts s.now pool currentTvlUsd due).1 }, [], log ++ seen⟩ ∧
      deliveries seen = (s.db.alerts s.now pool currentTvlUsd due).2 := by
  induction due generalizing s log with
  | nil =>
    have hend : s.step (.iterating pool currentTvlUsd []) true = some (s, [], []) := rfl
    exact ⟨[], reaches_single hend trivial, rfl⟩
  | cons t rest ih =>
    obtain ⟨ht, hrest⟩ := List.forall_mem_cons.mp hdue
    let entry := t.entry pool currentTvlUsd s.now
    let sent := dispatch s.db.webhooks s.now (.breach pool currentTvlUsd t s.now)
    have hiterate : s.step (.iterating pool currentTvlUsd (t :: rest)) true =
        some (s, [.creating pool currentTvlUsd t s.now rest], []) := rfl
    let s₁ : Alerting := { s with db.history := s.db.history ++ [entry] }
    have hcreate : s.step (.creating pool currentTvlUsd t s.now rest) true =
        some (s₁, [.updating pool currentTvlUsd t s.now rest], [.recorded entry]) :=
      if_pos ⟨rfl, ht⟩
    let s₂ : Alerting := { s with db := (s.db.alert s.now pool currentTvlUsd t).1 }
    have hupdate : s₁.step (.updating pool currentTvlUsd t s.now rest) true =
        some (s₂, [.dispatching pool currentTvlUsd t s.now rest], []) := if_pos ⟨rfl, ht⟩
    have hdispatch : s₂.step (.dispatching pool currentTvlUsd t s.now rest) true =
        some (s₂, [.iterating pool currentTvlUsd rest], [.sent sent]) := rfl
    obtain ⟨seen, hreach, hsent⟩ := ih s₂ (log ++ [.recorded entry, .sent sent]) fun t' ht' => by
      have hids : s₂.db.thresholds.rows.map (·.id) = s.db.thresholds.rows.map (·.id) :=
        ThresholdTable.trigger_ids _ _ _
      exact hids ▸ hrest t' ht'
    refine ⟨.recorded entry :: .sent sent :: seen, ?_, ?_⟩
    · refine (reaches_single hiterate trivial).trans ?_
      rw [List.append_nil]
      refine (reaches_single hcreate trivial).trans ((reaches_single hupdate trivial).trans ?_)
      rw [List.append_nil]
      refine (reaches_single hdispatch trivial).trans ?_
      rw [List.append_assoc, List.singleton_append]
      rwa [List.append_assoc] at hreach
    · exact congrArg (sent ++ ·) hsent

/-- **An execution that nothing disturbs** does what `Database.checkAndTriggerAlerts` does. -/
theorem checkAndTriggerAlerts_reaches (s : Alerting) (log : List AlertSeen) (pool : Pool)
    (currentTvlUsd : ℚ) :
    ∃ seen, Reaches Alerting.rules Unchanged
        ⟨s, [.finding pool currentTvlUsd (s.now - day)], log⟩
        ⟨{ s with db := (s.db.checkAndTriggerAlerts s.now pool currentTvlUsd).1 }, [],
          log ++ seen⟩ ∧
      deliveries seen = (s.db.checkAndTriggerAlerts s.now pool currentTvlUsd).2 := by
  have hfind : s.step (.finding pool currentTvlUsd (s.now - day)) true = some (s, [.iterating pool
      currentTvlUsd (s.db.thresholds.due pool.id currentTvlUsd (s.now - day))], []) := rfl
  obtain ⟨seen, hreach, hsent⟩ := alerts_reaches
    (s.db.thresholds.due pool.id currentTvlUsd (s.now - day)) s log
    fun t ht => List.mem_map_of_mem (List.mem_of_mem_filter ht)
  refine ⟨seen, ?_, hsent⟩
  refine (reaches_single hfind trivial).trans ?_
  rwa [List.append_nil]

end Swyft.Alerts
