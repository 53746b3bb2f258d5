import Swyft.Lib.Interleaving
import Mathlib.Logic.Function.Basic

/-!
# Delivering webhooks

`apps/api/src/webhooks/webhook.processor.ts`: a worker posts an event to a webhook, records the
attempt and brings the webhook's count of failures in a row up to date. A webhook that fails too
often is disabled. A delivery is a sequence of calls to the database with one request over the
network among them. Between two calls any other delivery may run, in this process or another.

## What is deliberately absent

Logs, and the fields of a webhook that no delivery reads. The queue: a job that is retried is one
more delivery, with one more attempt made. A payload is kept as its event and the text it is sent
as, the details of an attempt as the object whose text is stored.
-/

namespace Swyft.Webhooks

open Interleaving

inductive WebhookEventType where
  | poolCreated | swap | swapLarge | poolTvlMilestone | positionMinted | positionBurned
  deriving DecidableEq

/-- A payload, and what `JSON.stringify` makes of it. -/
structure WebhookPayload where
  event : WebhookEventType
  body : String
  deriving DecidableEq

/-- A job of the queue, with `attemptsMade` and `opts.attempts`. -/
structure WebhookJob where
  webhookId : String
  payload : WebhookPayload
  attemptsMade : ℕ
  attempts : Option ℕ
  deriving DecidableEq

/-! ### The database -/

structure Webhook where
  ownerWallet : String
  url : String
  secret : Option String
  disabled : Bool
  consecutiveFails : ℕ
  deriving DecidableEq

structure WebhookDelivery where
  webhookId : String
  eventType : WebhookEventType
  responseStatus : Option ℕ
  deliveryMs : ℤ
  deriving DecidableEq

/-- What is stored of an attempt to deliver. -/
structure AttemptMeta where
  event : WebhookEventType
  attempt : ℕ
  maxAttempts : ℕ
  responseStatus : Option ℕ
  deliveryMs : ℤ
  success : Bool
  deriving DecidableEq

structure WebhookAuditLog where
  webhookId : String
  action : String
  ownerWallet : String
  details : AttemptMeta
  deriving DecidableEq

structure Database where
  webhook : String → Option Webhook
  webhookDelivery : List WebhookDelivery
  webhookAuditLog : List WebhookAuditLog

/-- The settings of the workers, and `createHmac` of a secret and a body. -/
structure Settings where
  maxConsecutiveFails : ℕ
  retryAttempts : ℕ
  createHmac : String → String → String

/-! ### Deliveries in progress -/

/-- The next call of `deliver`. From the first on, `webhook` is what was read then. -/
inductive Call where
  | findUnique
  /-- Check the address and post to it. -/
  | fetch (webhook : Webhook)
  | createDelivery (webhook : Webhook) (responseStatus : Option ℕ) (deliveryMs : ℤ)
  | createAuditLog (webhook : Webhook) (responseStatus : Option ℕ) (deliveryMs : ℤ)
  | update (webhook : Webhook) (responseStatus : Option ℕ)
  deriving DecidableEq

structure Delivery where
  job : WebhookJob
  next : Call
  deriving DecidableEq

/-- How a call ends: the database serves it or fails; the network answers with a status, does not
answer, or is not asked as the address is blocked. The times are those the request took. -/
inductive Reply where
  | served
  | failed
  | responded (status : ℕ) (deliveryMs : ℤ)
  | unanswered (deliveryMs : ℤ)
  | blocked (deliveryMs : ℤ)
  deriving DecidableEq

/-- What can be observed. An update is seen with the webhook before and after it. -/
inductive Observed where
  | posted (webhookId url body : String) (signature : Option String)
  | updated (webhookId : String) (success : Bool) (before after : Webhook)
  | thrown (webhookId message : String)
  deriving DecidableEq

/-- The database, the deliveries left and what is observed. -/
abbrev Outcome := Database × List Delivery × List Observed

/-- A delivery succeeds with a status below 400. -/
def success (responseStatus : Option ℕ) : Bool := responseStatus.any (· < 400)

/-- The signature of a body, if the webhook has a secret. The empty secret is none. -/
def signature (settings : Settings) (webhook : Webhook) (body : String) : Option String :=
  webhook.secret.bind fun secret =>
    if secret = "" then none else some (settings.createHmac secret body)

/-- The row after the update of a delivery that read `webhook`. -/
def updateData (max : ℕ) (webhook : Webhook) (success : Bool) (row : Webhook) : Webhook :=
  if !success then
    let fails := webhook.consecutiveFails + 1
    { row with consecutiveFails := fails, disabled := max ≤ fails }
  else { row with consecutiveFails := 0 }

/-- The error a failed delivery ends with. -/
def deliveryFailed (responseStatus : Option ℕ) : String :=
  "Delivery failed with status " ++
    match responseStatus with
    | some status => toString status
    | none => "network error"

/-- The steps of `deliver`, from one call to the next. -/
def deliver (settings : Settings) (db : Database) (job : WebhookJob) :
    Call → Reply → Option Outcome
  | .fetch webhook, .responded status deliveryMs =>
    some (db, [⟨job, .createDelivery webhook (some status) deliveryMs⟩],
      [.posted job.webhookId webhook.url job.payload.body
        (signature settings webhook job.payload.body)])
  | .fetch webhook, .unanswered deliveryMs =>
    some (db, [⟨job, .createDelivery webhook none deliveryMs⟩],
      [.posted job.webhookId webhook.url job.payload.body
        (signature settings webhook job.payload.body)])
  | .fetch webhook, .blocked deliveryMs =>
    some (db, [⟨job, .createDelivery webhook none deliveryMs⟩], [])
  | .fetch _, _ => none
  -- a call the database fails ends the delivery
  | _, .failed => some (db, [], [])
  | .findUnique, .served =>
    match db.webhook job.webhookId with
    | none => some (db, [], [])
    | some webhook =>
      if webhook.disabled then some (db, [], []) else some (db, [⟨job, .fetch webhook⟩], [])
  | .createDelivery webhook responseStatus deliveryMs, .served =>
    let delivery := ⟨job.webhookId, job.payload.event, responseStatus, deliveryMs⟩
    some ({ db with webhookDelivery := db.webhookDelivery ++ [delivery] },
      [⟨job, .createAuditLog webhook responseStatus deliveryMs⟩], [])
  | .createAuditLog webhook responseStatus deliveryMs, .served =>
    let details := ⟨job.payload.event, job.attemptsMade + 1,
      job.attempts.getD settings.retryAttempts, responseStatus, deliveryMs,
      success responseStatus⟩
    let entry := ⟨job.webhookId, "delivery_attempt", webhook.ownerWallet, details⟩
    some ({ db with webhookAuditLog := db.webhookAuditLog ++ [entry] },
      [⟨job, .update webhook responseStatus⟩], [])
  | .update webhook responseStatus, .served =>
    match db.webhook job.webhookId with
    | none => some (db, [], [])
    | some row =>
      let row' := updateData settings.maxConsecutiveFails webhook (success responseStatus) row
      some ({ db with webhook := Function.update db.webhook job.webhookId (some row') }, [],
        .updated job.webhookId (success responseStatus) row row' ::
          if !success responseStatus then
            [.thrown job.webhookId (deliveryFailed responseStatus)]
          else [])
  | _, _ => none

/-- Deliveries of the webhooks, by any number of workers. A job may arrive at any moment. -/
def rules (settings : Settings) : Rules Database Delivery Reply WebhookJob Observed where
  step db d x := deliver settings db d.job d.next x
  outside db job := some (db, [⟨job, .findUnique⟩], [])

/-! ### What a call can do -/

/-- Nothing observed is an update. -/
def NoUpdate (seen : List Observed) : Prop :=
  ∀ id success before after, Observed.updated id success before after ∉ seen

variable {settings : Settings} {db db' : Database} {job : WebhookJob} {call : Call} {x : Reply}
  {ps : List Delivery} {seen : List Observed}

/-- A call updates the webhook of its job from what was read at first, or leaves all webhooks as
they are. -/
theorem deliver_cases (h : deliver settings db job call x = some (db', ps, seen)) :
    (∃ webhook responseStatus row rest,
      call = .update webhook responseStatus ∧ x = .served ∧ db.webhook job.webhookId = some row ∧
      db'.webhook = Function.update db.webhook job.webhookId (some (updateData
        settings.maxConsecutiveFails webhook (success responseStatus) row)) ∧
      NoUpdate rest ∧
      seen = .updated job.webhookId (success responseStatus) row (updateData
        settings.maxConsecutiveFails webhook (success responseStatus) row) :: rest) ∨
    db'.webhook = db.webhook ∧ NoUpdate seen := by
  unfold deliver at h
  split at h
  case h_1 | h_2 | h_3 =>
    cases h
    exact .inr ⟨rfl, by simp [NoUpdate]⟩
  case h_4 => cases h
  case h_5 =>
    cases h
    exact .inr ⟨rfl, by simp [NoUpdate]⟩
  case h_6 =>
    right
    split at h
    · cases h
      exact ⟨rfl, by simp [NoUpdate]⟩
    · split at h <;> cases h <;> exact ⟨rfl, by simp [NoUpdate]⟩
  case h_7 | h_8 =>
    cases h
    exact .inr ⟨rfl, by simp [NoUpdate]⟩
  case h_9 webhook responseStatus =>
    split at h
    · cases h
      exact .inr ⟨rfl, by simp [NoUpdate]⟩
    · rename_i row hrow
      cases h
      refine .inl ⟨webhook, responseStatus, row, _, rfl, rfl, hrow, rfl, ?_, rfl⟩
      split <;> simp [NoUpdate]
  case h_10 => cases h

end Swyft.Webhooks
