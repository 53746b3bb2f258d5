import Swyft.Webhooks.Model

/-!
# Failures in a row

A delivery reads the count of failures when it starts and writes one more when it fails, together
with whether that disables the webhook. Both are right as long as the count is still the one it
read and the webhook, if it has been disabled since, is to be disabled by this failure as well.
In a run whose failed deliveries all meet this, the count is the number of failures since the last
success, and a webhook that failed often enough is disabled for good. A delivery that overlaps
with another loses a failure otherwise, and enables a webhook again.

## Main results

* `failures_accounted` — what runs with current counts guarantee
* `failure_lost` — what overlapping deliveries do
-/

namespace Swyft.Webhooks

open Interleaving

/-! ### What is promised -/

/-- A successful delivery brought the webhook up to date. -/
def isSuccess (id : String) : Observed → Bool
  | .updated webhookId success _ _ => webhookId = id && success
  | _ => false

/-- A failed delivery brought the webhook up to date. -/
def isFailure (id : String) : Observed → Bool
  | .updated webhookId success _ _ => webhookId = id && !success
  | _ => false

/-- How many failed deliveries brought the webhook up to date after the last successful one did. -/
def failsInARow (id : String) (log : List Observed) : ℕ :=
  (log.reverse.takeWhile fun y => !isSuccess id y).countP (isFailure id)

/-- The accounts of a webhook are right: its count is that of the failures in a row, it is
disabled once there have been `max` of them, and no delivery enabled it again. -/
structure Accounted (max : ℕ) (id : String) (row : Webhook) (log : List Observed) : Prop where
  count : row.consecutiveFails = failsInARow id log
  disabled : ∀ pre, pre <+: log → 0 < failsInARow id pre → max ≤ failsInARow id pre →
    row.disabled = true
  kept : ∀ success before after, .updated id success before after ∈ log →
    before.disabled = true → after.disabled = true

/-! ### Runs with current counts -/

/-- The webhook as read by a delivery that is about to record a failure. -/
def Delivery.failed? (d : Delivery) : Option Webhook :=
  match d.next with
  | .update webhook responseStatus => if success responseStatus then none else some webhook
  | _ => none

/-- The steps that record a failure of the webhook only over the count they go by, and not over
its being disabled unless they disable it as well. -/
def Current (max : ℕ) (id : String) (P : Pool Database Delivery Observed) :
    Act Reply WebhookJob → Prop
  | .step i x => ∀ d ∈ P.running[i]?, d.job.webhookId = id → x = .served →
    ∀ webhook ∈ d.failed?, ∀ row ∈ P.shared.webhook id,
      row.consecutiveFails = webhook.consecutiveFails ∧
        (row.disabled = true → max ≤ webhook.consecutiveFails + 1)
  | .outside _ => True

instance decidableCurrent (max : ℕ) (id : String) (P : Pool Database Delivery Observed) :
    ∀ a, Decidable (Current max id P a)
  | .step i x => inferInstanceAs (Decidable (∀ d ∈ P.running[i]?, d.job.webhookId = id →
    x = .served → ∀ webhook ∈ d.failed?, ∀ row ∈ P.shared.webhook id,
      row.consecutiveFails = webhook.consecutiveFails ∧
        (row.disabled = true → max ≤ webhook.consecutiveFails + 1)))
  | .outside _ => instDecidableTrue

/-! ### Counting in a log -/

section Log

variable {id : String} {log seen : List Observed} {before after : Webhook}

@[simp] theorem failsInARow_success :
    failsInARow id (log ++ [.updated id true before after]) = 0 := by
  simp [failsInARow, isSuccess]

@[simp] theorem failsInARow_failure :
    failsInARow id (log ++ [.updated id false before after]) = failsInARow id log + 1 := by
  simp [failsInARow, isSuccess, isFailure]

/-- Nothing that is observed brings the webhook up to date. -/
def Aside (id : String) (seen : List Observed) : Prop :=
  ∀ success before after, Observed.updated id success before after ∉ seen

theorem NoUpdate.aside (h : NoUpdate seen) : Aside id seen := h id

theorem Aside.cons {id' : String} {success : Bool} (h : Aside id seen) (hne : id' ≠ id) :
    Aside id (.updated id' success before after :: seen) := by
  intro success' before' after' hmem
  rcases List.mem_cons.mp hmem with heq | hmem
  · cases heq
    exact hne rfl
  · exact h success' before' after' hmem

theorem failsInARow_aside {y : Observed} (h : Aside id [y]) :
    failsInARow id (log ++ [y]) = failsInARow id log := by
  cases y with
  | posted | thrown => simp [failsInARow, isSuccess, isFailure]
  | updated id' success before after =>
    have hne : id' ≠ id := by
      rintro rfl
      exact h success before after List.mem_cons_self
    simp [failsInARow, isSuccess, isFailure, hne]

end Log

/-! ### Steps -/

namespace Accounted

variable {max : ℕ} {id : String} {row : Webhook} {log seen : List Observed}

theorem snoc_aside {y : Observed} (h : Accounted max id row log) (hy : Aside id [y]) :
    Accounted max id row (log ++ [y]) where
  count := by rw [failsInARow_aside hy, h.count]
  disabled := by
    intro pre hpre hpos hmax
    rcases List.prefix_concat_iff.mp hpre with rfl | hpre
    · rw [failsInARow_aside hy] at hpos hmax
      exact h.disabled log (List.prefix_refl log) hpos hmax
    · exact h.disabled pre hpre hpos hmax
  kept := by
    intro success before after hmem
    rcases List.mem_append.mp hmem with hmem | hmem
    · exact h.kept success before after hmem
    · exact absurd hmem (hy success before after)

/-- What does not concern the webhook leaves its accounts right. -/
theorem append_aside (h : Accounted max id row log) (hseen : Aside id seen) :
    Accounted max id row (log ++ seen) := by
  induction seen generalizing log with
  | nil => rwa [List.append_nil]
  | cons y seen ih =>
    rw [List.append_cons]
    refine ih (h.snoc_aside fun success before after hmem => ?_) fun success before after hmem =>
      hseen success before after (List.mem_cons_of_mem _ hmem)
    obtain rfl := List.mem_singleton.mp hmem
    exact hseen success before after List.mem_cons_self

/-- A success starts the count anew and leaves a disabled webhook disabled. -/
theorem snoc_success (h : Accounted max id row log) (webhook : Webhook) :
    Accounted max id (updateData max webhook true row)
      (log ++ [.updated id true row (updateData max webhook true row)]) where
  count := by rw [failsInARow_success]; rfl
  disabled := by
    intro pre hpre hpos hmax
    rcases List.prefix_concat_iff.mp hpre with rfl | hpre
    · rw [failsInARow_success] at hpos
      exact absurd hpos (Nat.lt_irrefl 0)
    · exact h.disabled pre hpre hpos hmax
  kept := by
    intro success before after hmem hbefore
    rcases List.mem_append.mp hmem with hmem | hmem
    · exact h.kept success before after hmem hbefore
    · cases List.mem_singleton.mp hmem
      exact hbefore

/-- A failure keeps the accounts right exactly if it is recorded over the count it goes by, and
keeps a disabled webhook disabled. -/
theorem snoc_failure_iff {webhook : Webhook} (h : Accounted max id row log) :
    Accounted max id (updateData max webhook false row)
        (log ++ [.updated id false row (updateData max webhook false row)]) ↔
      row.consecutiveFails = webhook.consecutiveFails ∧
        (row.disabled = true → max ≤ webhook.consecutiveFails + 1) := by
  constructor
  · intro h'
    have hcount : webhook.consecutiveFails + 1 = row.consecutiveFails + 1 := by
      rw [h.count, ← failsInARow_failure, ← h'.count]
      rfl
    refine ⟨(Nat.succ.inj hcount).symm, fun hdisabled => ?_⟩
    exact of_decide_eq_true (h'.kept false row _ List.mem_concat_self hdisabled)
  · rintro ⟨hcount, hdisabled⟩
    refine ⟨?_, ?_, ?_⟩
    · rw [failsInARow_failure, ← h.count, hcount]
      rfl
    · intro pre hpre hpos hmax
      refine decide_eq_true ?_
      rcases List.prefix_concat_iff.mp hpre with rfl | hpre
      · rwa [failsInARow_failure, ← h.count, hcount] at hmax
      · exact hdisabled (h.disabled pre hpre hpos hmax)
    · intro success before after hmem hbefore
      rcases List.mem_append.mp hmem with hmem | hmem
      · exact h.kept success before after hmem hbefore
      · cases List.mem_singleton.mp hmem
        exact decide_eq_true (hdisabled hbefore)

end Accounted

/-- What holds in a run: the webhook is there and its accounts are right. -/
def Kept (max : ℕ) (id : String) (db : Database) (log : List Observed) : Prop :=
  ∃ row, db.webhook id = some row ∧ Accounted max id row log

/-- A call keeps the accounts of the webhook right, if what it records is current. -/
theorem Kept.deliver {settings : Settings} {id : String} {db db' : Database} {job : WebhookJob}
    {call : Call} {x : Reply} {ps : List Delivery} {log seen : List Observed}
    (h : Kept settings.maxConsecutiveFails id db log)
    (hcurrent : job.webhookId = id → x = .served →
      ∀ webhook ∈ (Delivery.mk job call).failed?, ∀ row ∈ db.webhook id,
        row.consecutiveFails = webhook.consecutiveFails ∧
          (row.disabled = true → settings.maxConsecutiveFails ≤ webhook.consecutiveFails + 1))
    (hstep : deliver settings db job call x = some (db', ps, seen)) :
    Kept settings.maxConsecutiveFails id db' (log ++ seen) := by
  obtain ⟨row, hrow, h⟩ := h
  rcases deliver_cases hstep with
    ⟨webhook, responseStatus, row', rest, rfl, hx, hrow', hdb, hrest, rfl⟩ | ⟨hdb, hseen⟩
  · by_cases hid : job.webhookId = id
    · subst hid
      obtain rfl : row = row' := Option.some.inj (hrow.symm.trans hrow')
      rw [List.append_cons]
      refine ⟨_, by rw [hdb, Function.update_self], .append_aside ?_ hrest.aside⟩
      cases hsuccess : success responseStatus with
      | true => exact h.snoc_success webhook
      | false =>
        have hfailed : webhook ∈ (Delivery.mk job (.update webhook responseStatus)).failed? := by
          simp [Delivery.failed?, hsuccess]
        exact h.snoc_failure_iff.mpr (hcurrent rfl hx webhook hfailed row hrow)
    · refine ⟨row, ?_, h.append_aside (hrest.aside.cons hid)⟩
      rw [hdb, Function.update_of_ne (Ne.symm hid), hrow]
  · exact ⟨row, by rw [hdb, hrow], h.append_aside hseen.aside⟩

/-! ### Runs -/

/-- In every run that begins with a webhook without failures, whose failed deliveries record over
current counts, the accounts of the webhook are right. -/
theorem failures_accounted {settings : Settings} {id : String} {db : Database} {row : Webhook}
    {P : Pool Database Delivery Observed} (hrow : db.webhook id = some row)
    (hfresh : row.consecutiveFails = 0)
    (h : Reaches (rules settings) (Current settings.maxConsecutiveFails id) ⟨db, [], []⟩ P) :
    ∃ row, P.shared.webhook id = some row ∧
      Accounted settings.maxConsecutiveFails id row P.log := by
  have hinit : Kept settings.maxConsecutiveFails id db [] := by
    refine ⟨row, hrow, hfresh, ?_, by simp⟩
    intro pre hpre hpos
    rw [List.prefix_nil.mp hpre] at hpos
    exact absurd hpos (Nat.lt_irrefl 0)
  refine h.invariant (I := fun P => Kept settings.maxConsecutiveFails id P.shared P.log) ?_ ?_ hinit
  · intro db before d after log x db' ps seen hkept hcurrent hstep
    refine hkept.deliver (fun hid hx => ?_) hstep
    exact hcurrent d (by simp) hid hx
  · intro db running log job db' ps seen hkept _ hout
    cases hout
    rwa [List.append_nil]

/-- A webhook after some failures in a row. -/
def failedTimes (fails : ℕ) (disabled : Bool) : Webhook :=
  ⟨"GA", "https://example", none, disabled, fails⟩

/-- A database with one webhook, which has not failed. -/
def single : Database :=
  ⟨Function.update (fun _ => none) "w" (some (failedTimes 0 false)), [], []⟩

/-- Two failures in a row disable a webhook. -/
def twoFails : Settings := ⟨2, 3, fun _ body => body⟩

def swapJob : WebhookJob := ⟨"w", ⟨.swap, "\x7b\x7d"⟩, 0, none⟩

/-- The delivery at a place is not answered and fails. -/
def failing (i : ℕ) : List (Act Reply WebhookJob) :=
  .step i (.unanswered 5000) :: List.replicate 3 (.step i .served)

/-- One delivery after the other fails. -/
def inTurn : List (Act Reply WebhookJob) :=
  .outside swapJob :: .step 0 .served :: failing 0 ++
    .outside swapJob :: .step 0 .served :: failing 0

theorem failures_accounted_in_turn : ∃ P : Pool Database Delivery Observed, P.running = [] ∧
    failsInARow "w" P.log = 2 ∧
    ∃ row, P.shared.webhook "w" = some row ∧ Accounted 2 "w" row P.log := by
  have hrun : ((rules twoFails).run ⟨single, [], []⟩ inTurn).map
      (fun P => (P.running, P.log)) = some _ := rfl
  obtain ⟨P, hP, hseen⟩ := Option.map_eq_some_iff.mp hrun
  obtain ⟨hrunning, hlog⟩ := Prod.mk.inj hseen
  exact ⟨P, hrunning, hlog ▸ by decide,
    failures_accounted rfl rfl (reaches_of_run hP (by decide))⟩

/-- Two deliveries read the count, and one of them fails; a third reads it, fails and disables the
webhook; then the other one fails. -/
def overlapping : List (Act Reply WebhookJob) :=
  [.outside swapJob, .outside swapJob, .step 0 .served, .step 1 .served] ++ failing 1 ++
    .outside swapJob :: .step 0 .served :: failing 0 ++ failing 0

/-- Of three failures in a row one is counted, and the webhook is enabled again. -/
theorem failure_lost : ∃ P, Reaches (rules twoFails) (fun _ _ => True) ⟨single, [], []⟩ P ∧
    P.running = [] ∧ failsInARow "w" P.log = 3 ∧
    P.shared.webhook "w" = some (failedTimes 1 false) ∧
    .updated "w" false (failedTimes 2 true) (failedTimes 1 false) ∈ P.log := by
  have hrun : ((rules twoFails).run ⟨single, [], []⟩ overlapping).map
      (fun P => (P.running, P.shared.webhook "w", P.log)) = some _ := rfl
  obtain ⟨P, hP, hseen⟩ := Option.map_eq_some_iff.mp hrun
  obtain ⟨hrunning, hseen⟩ := Prod.mk.inj hseen
  obtain ⟨hrow, hlog⟩ := Prod.mk.inj hseen
  exact ⟨P, reaches_of_run hP (along_of_forall (fun _ _ _ => trivial) _), hrunning,
    hlog ▸ by decide, hrow, hlog ▸ by decide⟩

end Swyft.Webhooks
