import Swyft.Webhooks.Model

/-!
# Webhooks from registration to removal

`apps/api/src/webhooks/webhooks.service.ts`: a wallet registers a webhook, sends it a test event and
removes it. Registering and removing write the table and then the audit log, with two calls to the
database. Events are dispatched to the webhooks that subscribe to them, each by a delivery.

All of these are processes, of any number of wallets, and between two calls of one any other may
run. A job may be delivered again at any moment, as the queue retries it or as its owner asks for
it.

## What is deliberately absent

Logs, and the threshold for large swaps, which no delivery reads. An identifier is one that was
never made before.

## Main definitions

* `Registry`, `Request` — the tables, and what a request has still to do
* `registry` — the rules

## Main results

* `webhook_audited` — what the audit log holds, after any interleaving
* `webhook_posted` — what is posted to whom
* `webhook_removed` — a webhook that is removed is posted to by deliveries under way only
-/

namespace Swyft.Webhooks

open Interleaving

def WebhookEventType.text : WebhookEventType → String
  | poolCreated => "pool.created"
  | swap => "swap"
  | swapLarge => "swap.large"
  | poolTvlMilestone => "pool.tvl.milestone"
  | positionMinted => "position.minted"
  | positionBurned => "position.burned"

/-- `WEBHOOK_EVENTS`. -/
def webhookEvents : List String :=
  [WebhookEventType.poolCreated, .swap, .swapLarge, .poolTvlMilestone, .positionMinted,
    .positionBurned].map WebhookEventType.text

/-- What a wallet registers. -/
structure Registration where
  ownerWallet : String
  url : String
  eventTypes : List String
  secret : Option String
  deriving DecidableEq

/-- `validTypes`. -/
def Registration.validTypes (r : Registration) : List String :=
  r.eventTypes.filter (· ∈ webhookEvents)

/-- The row of the table. -/
def Registration.webhook (r : Registration) : Webhook := ⟨r.ownerWallet, r.url, r.secret, false, 0⟩

inductive CrudAction where
  | created | deleted
  deriving DecidableEq

/-- An entry of the audit log that is not of a delivery, with the address and the events that its
`meta` is written from, if any. -/
structure CrudEntry where
  webhookId : String
  action : CrudAction
  ownerWallet : String
  details : Option (String × List String)
  deriving DecidableEq

structure Registry where
  db : Database
  /-- The column `eventTypes` of the webhooks. -/
  eventTypes : String → List String
  /-- The entries of the audit log that are not of deliveries. -/
  crud : List CrudEntry
  /-- The identifiers that were made. -/
  issued : List String

/-- What a request has still to do. -/
inductive Request where
  | create (r : Registration)
  | logCreated (id : String) (r : Registration)
  | remove (id ownerWallet : String)
  | logDeleted (id ownerWallet : String)
  | ping (id ownerWallet : String) (payload : WebhookPayload)
  | dispatch (payload : WebhookPayload)
  | deliver (d : Delivery)
  deriving DecidableEq

/-- What arrives. -/
inductive Arrival where
  | create (r : Registration)
  | remove (id ownerWallet : String)
  | ping (id ownerWallet : String) (payload : WebhookPayload)
  | dispatch (payload : WebhookPayload)
  | job (job : WebhookJob)
  deriving DecidableEq

/-- How a call ends. A webhook is inserted under a new identifier. -/
inductive Fate where
  | served
  | failed
  | inserted (id : String)
  | replied (x : Reply)
  deriving DecidableEq

/-- What can be observed. -/
inductive Seen where
  | created (id : String) (r : Registration)
  | removed (id ownerWallet : String)
  /-- The database fails to write an entry of the audit log. -/
  | unlogged (id : String) (action : CrudAction)
  | pinged (id ownerWallet : String) (sent : Bool)
  | delivery (o : Observed)
  deriving DecidableEq

/-- `dispatch` of the worker: a job for a webhook. -/
def newJob (settings : Settings) (payload : WebhookPayload) (id : String) : WebhookJob :=
  ⟨id, payload, 0, some settings.retryAttempts⟩

/-- A delivery that begins. -/
def Request.ofJob (job : WebhookJob) : Request := .deliver ⟨job, .findUnique⟩

namespace Registry

/-- `webhook.create`. -/
def insert (s : Registry) (id : String) (r : Registration) : Registry :=
  { s with
    db := { s.db with webhook := Function.update s.db.webhook id (some r.webhook) }
    eventTypes := Function.update s.eventTypes id r.validTypes
    issued := id :: s.issued }

/-- `webhook.deleteMany`, of one webhook and its deliveries. -/
def delete (s : Registry) (id : String) : Registry :=
  { s with
    db := { s.db with
      webhook := Function.update s.db.webhook id none
      webhookDelivery := s.db.webhookDelivery.filter (·.webhookId ≠ id) } }

/-- `webhookAuditLog.create`. -/
def write (s : Registry) (e : CrudEntry) : Registry := { s with crud := s.crud ++ [e] }

/-- The webhooks an event is dispatched to. -/
def subscribers (s : Registry) (event : WebhookEventType) : List String :=
  s.issued.filter fun id =>
    (s.db.webhook id).any (!·.disabled) && event.text ∈ s.eventTypes id

/-- `list`. -/
def list (s : Registry) (ownerWallet : String) : List String :=
  s.issued.filter fun id => (s.db.webhook id).any (·.ownerWallet = ownerWallet)

/-- The webhook, if it is the wallet's. -/
def owned (s : Registry) (id ownerWallet : String) : Option Webhook :=
  (s.db.webhook id).filter (·.ownerWallet = ownerWallet)

end Registry

/-- The delivery is about to insert a row that refers to its webhook. -/
def Delivery.refers (d : Delivery) (x : Reply) : Bool :=
  match d.next, x with
  | .createDelivery .., .served => true
  | _, _ => false

/-- The next call of a request. -/
def Request.step (settings : Settings) (s : Registry) :
    Request → Fate → Option (Registry × List Request × List Seen)
  | .create r, .inserted id =>
    if id ∈ s.issued then none
    else some (s.insert id r, [.logCreated id r], [.created id r])
  | .create _, .failed => some (s, [], [])
  | .logCreated id r, .served =>
    some (s.write ⟨id, .created, r.ownerWallet, some (r.url, r.validTypes)⟩, [], [])
  | .logCreated id _, .failed => some (s, [], [.unlogged id .created])
  | .remove id ownerWallet, .served =>
    match s.owned id ownerWallet with
    | some _ => some (s.delete id, [.logDeleted id ownerWallet], [.removed id ownerWallet])
    | none => some (s, [], [])
  | .remove _ _, .failed => some (s, [], [])
  | .logDeleted id ownerWallet, .served =>
    some (s.write ⟨id, .deleted, ownerWallet, none⟩, [], [])
  | .logDeleted id _, .failed => some (s, [], [.unlogged id .deleted])
  | .ping id ownerWallet payload, .served =>
    match s.owned id ownerWallet with
    | some _ =>
      some (s, [.ofJob (newJob settings payload id)], [.pinged id ownerWallet true])
    | none => some (s, [], [.pinged id ownerWallet false])
  | .ping _ _ _, .failed => some (s, [], [])
  | .dispatch payload, .served =>
    some (s, (s.subscribers payload.event).map fun id => .ofJob (newJob settings payload id), [])
  | .dispatch _, .failed => some (s, [], [])
  | .deliver d, .replied x =>
    -- a row that refers to a webhook can be inserted only while the webhook is there
    if d.refers x ∧ s.db.webhook d.job.webhookId = none then none
    else
      (Webhooks.deliver settings s.db d.job d.next x).map fun (db, ds, seen) =>
        ({ s with db }, ds.map .deliver, seen.map .delivery)
  | _, _ => none

/-- What arrives becomes a process. -/
def Arrival.request : Arrival → Request
  | create r => .create r
  | remove id ownerWallet => .remove id ownerWallet
  | ping id ownerWallet payload => .ping id ownerWallet payload
  | dispatch payload => .dispatch payload
  | job j => .ofJob j

/-- Requests of any number of wallets, and deliveries by any number of workers. -/
def registry (settings : Settings) : Rules Registry Request Fate Arrival Seen where
  step s p fate := p.step settings s fate
  outside s a := some (s, [a.request], [])

/-- Before any request. -/
def Registry.empty : Registry := ⟨⟨fun _ => none, [], []⟩, fun _ => [], [], []⟩

/-- A state that requests and deliveries lead to, in any order. -/
def Reachable (settings : Settings) (P : Pool Registry Request Seen) : Prop :=
  Reaches (registry settings) (fun _ _ => True) ⟨.empty, [], []⟩ P

/-! ### What a delivery does -/

/-- The webhook as the delivery read it. -/
def Call.read : Call → Option Webhook
  | .findUnique => none
  | .fetch webhook | .createDelivery webhook _ _ | .createAuditLog webhook _ _
  | .update webhook _ => some webhook

/-- The delivery is about to post to the webhook. -/
def Call.posts : Call → Bool
  | .fetch _ => true
  | _ => false

/-- What is observed is a post to the webhook. -/
def Observed.postedTo (id : String) : Observed → Bool
  | .posted webhookId .. => webhookId = id
  | _ => false

/-- The same webhook, but for its count of failures. -/
def Webhook.Alike (a b : Webhook) : Prop :=
  a.ownerWallet = b.ownerWallet ∧ a.url = b.url ∧ a.secret = b.secret

theorem Webhook.Alike.refl (a : Webhook) : a.Alike a := ⟨rfl, rfl, rfl⟩

theorem Webhook.Alike.trans {a b c : Webhook} (h : a.Alike b) (h' : b.Alike c) : a.Alike c :=
  ⟨h.1.trans h'.1, h.2.1.trans h'.2.1, h.2.2.trans h'.2.2⟩

variable {settings : Settings} {db db' : Database} {job : WebhookJob} {call : Call} {x : Reply}
  {ds : List Delivery} {os : List Observed}

theorem signature_alike {a b : Webhook} (h : a.Alike b) (body : String) :
    signature settings a body = signature settings b body := by
  rw [signature, signature, h.2.2]

/-- **One call of a delivery.** It leaves every webhook that is not there as it is and every other
as it was registered; it goes on with what it has read; and it posts what it has read. -/
structure Delivered (settings : Settings) (db : Database) (job : WebhookJob) (call : Call)
    (db' : Database) (ds : List Delivery) (os : List Observed) : Prop where
  webhook : ∀ id, (db'.webhook id).isSome = (db.webhook id).isSome ∧
    ∀ row' ∈ db'.webhook id, ∃ row ∈ db.webhook id, row'.Alike row
  auditLog : ∀ e ∈ db'.webhookAuditLog, e ∈ db.webhookAuditLog ∨
    e.webhookId = job.webhookId ∧ ∃ webhook ∈ call.read, e.ownerWallet = webhook.ownerWallet
  next : ∀ d ∈ ds, d.job = job ∧ ∃ webhook ∈ d.next.read, webhook ∈ call.read ∨
    call = .findUnique ∧ webhook ∈ db.webhook job.webhookId
  posted : ∀ id url body sig, Observed.posted id url body sig ∈ os → id = job.webhookId ∧
    body = job.payload.body ∧ ∃ webhook ∈ call.read,
      url = webhook.url ∧ sig = signature settings webhook body
  posts : ∀ id, os.countP (Observed.postedTo id) + ds.countP (fun d => d.next.posts) ≤
    (if call.posts then 1 else 0) +
      if call = .findUnique ∧ (db.webhook job.webhookId).isSome then 1 else 0

theorem updateData_alike (max : ℕ) (webhook : Webhook) (success : Bool) (row : Webhook) :
    (updateData max webhook success row).Alike row := by
  simp only [updateData]
  split <;> exact ⟨rfl, rfl, rfl⟩

theorem delivered (h : deliver settings db job call x = some (db', ds, os)) :
    Delivered settings db job call db' ds os := by
  have hsame : ∀ id, (db.webhook id).isSome = (db.webhook id).isSome ∧
      ∀ row' ∈ db.webhook id, ∃ row ∈ db.webhook id, row'.Alike row :=
    fun id => ⟨rfl, fun row hrow => ⟨row, hrow, .refl row⟩⟩
  unfold deliver at h
  split at h
  case h_1 | h_2 =>
    cases h
    refine ⟨hsame, fun e he => .inl he, by simp [Call.read], ?_, fun id => ?_⟩
    · intro id url body sig hmem
      obtain ⟨rfl, rfl, rfl, rfl⟩ := by simpa using hmem
      exact ⟨rfl, rfl, _, rfl, rfl, rfl⟩
    · simp [Call.posts, List.countP_cons]
      split <;> omega
  case h_3 =>
    cases h
    exact ⟨hsame, fun e he => .inl he, by simp [Call.read], by simp, fun id => by simp [Call.posts]⟩
  case h_4 => cases h
  case h_5 =>
    cases h
    exact ⟨hsame, fun e he => .inl he, by simp, by simp, fun id => by simp⟩
  case h_6 =>
    split at h
    · cases h
      exact ⟨hsame, fun e he => .inl he, by simp, by simp, fun id => by simp⟩
    · rename_i row hrow
      split at h
      · cases h
        exact ⟨hsame, fun e he => .inl he, by simp, by simp, fun id => by simp⟩
      · cases h
        refine ⟨hsame, fun e he => .inl he, ?_, by simp, fun id => ?_⟩
        · simp [Call.read, hrow]
        · simp [Call.posts, hrow]
  case h_7 =>
    cases h
    exact ⟨hsame, fun e he => .inl he, by simp [Call.read], by simp, fun id => by simp [Call.posts]⟩
  case h_8 webhook responseStatus deliveryMs =>
    cases h
    refine ⟨hsame, fun e he => ?_, by simp [Call.read], by simp, fun id => by simp [Call.posts]⟩
    rcases List.mem_append.mp he with he | he
    · exact .inl he
    · obtain rfl := List.mem_singleton.mp he
      exact .inr ⟨rfl, webhook, rfl, rfl⟩
  case h_9 webhook responseStatus =>
    split at h
    · cases h
      exact ⟨hsame, fun e he => .inl he, by simp, by simp, fun id => by simp⟩
    · rename_i row hrow
      cases h
      refine ⟨fun id => ?_, fun e he => .inl he, by simp, ?_, fun id => ?_⟩
      · by_cases hid : id = job.webhookId
        · subst hid
          simp only [Function.update_self, hrow, Option.isSome_some, true_and]
          rintro _ ⟨⟩
          exact ⟨row, rfl, updateData_alike ..⟩
        · simp only [Function.update_of_ne hid, true_and]
          exact (hsame id).2
      · split <;> simp
      · split <;> simp [Observed.postedTo]
  case h_10 => cases h

/-! ### What is kept in balance -/

/-- An entry of the audit log about a webhook. -/
def CrudEntry.isAbout (id : String) (action : CrudAction) (e : CrudEntry) : Bool :=
  e.webhookId = id && action = e.action

/-- A request that has still to write an entry of the audit log. -/
def Request.owes (id : String) (action : CrudAction) : Request → Bool
  | .logCreated webhookId _ => webhookId = id && action = .created
  | .logDeleted webhookId _ => webhookId = id && action = .deleted
  | _ => false

/-- What an entry of the audit log stands for. -/
def Seen.did (id : String) (action : CrudAction) : Seen → Bool
  | .created webhookId _ => webhookId = id && action = .created
  | .removed webhookId _ => webhookId = id && action = .deleted
  | _ => false

/-- The entry that could not be written. -/
def Seen.lost (id : String) (action : CrudAction) : Seen → Bool
  | .unlogged webhookId done => webhookId = id && action = done
  | _ => false

/-- The request is about to post to a webhook. -/
def Request.posts (id : String) : Request → Bool
  | .deliver d => d.job.webhookId = id && d.next.posts
  | _ => false

/-- What is observed is a post to the webhook. -/
def Seen.postedTo (id : String) : Seen → Bool
  | .delivery o => o.postedTo id
  | _ => false

/-- One, if the webhook is there. -/
def Registry.stock (s : Registry) (id : String) : ℕ := if (s.db.webhook id).isSome then 1 else 0

/-- **One call of a request.** What has been done to a webhook is logged, owed or lost; the webhook
is there if it was made and not removed; identifiers are not made twice. -/
structure Stepped (s : Registry) (p : Request) (s' : Registry) (ps : List Request)
    (seen : List Seen) : Prop where
  logged : ∀ id action, s'.crud.countP (·.isAbout id action) + ps.countP (·.owes id action) +
      seen.countP (·.lost id action) =
    s.crud.countP (·.isAbout id action) + (if p.owes id action then 1 else 0) +
      seen.countP (·.did id action)
  stock : ∀ id, s'.stock id + seen.countP (·.did id .deleted) =
    s.stock id + seen.countP (·.did id .created)
  issued : ∀ id, s'.issued.count id = s.issued.count id + seen.countP (·.did id .created)
  once : ∀ id, seen.countP (·.did id .created) ≤ 1
  new : ∀ id, 0 < seen.countP (·.did id .created) → id ∉ s.issued

/-- Nothing is done and nothing owed. -/
theorem Stepped.quiet {s s' : Registry} {p : Request} {ps : List Request} {seen : List Seen}
    (hcrud : s'.crud = s.crud) (hissued : s'.issued = s.issued)
    (hstock : ∀ id, (s'.db.webhook id).isSome = (s.db.webhook id).isSome)
    (hp : ∀ id action, p.owes id action = false) (hps : ∀ q ∈ ps, ∀ id action,
      q.owes id action = false)
    (hseen : ∀ x ∈ seen, ∀ id action, x.did id action = false ∧ x.lost id action = false) :
    Stepped s p s' ps seen := by
  have hdid : ∀ id action, seen.countP (·.did id action) = 0 := fun id action =>
    List.countP_eq_zero.mpr fun x hx => by rw [(hseen x hx id action).1]; exact Bool.false_ne_true
  have hlost : ∀ id action, seen.countP (·.lost id action) = 0 := fun id action =>
    List.countP_eq_zero.mpr fun x hx => by rw [(hseen x hx id action).2]; exact Bool.false_ne_true
  have howes : ∀ id action, ps.countP (·.owes id action) = 0 := fun id action =>
    List.countP_eq_zero.mpr fun q hq => by rw [hps q hq id action]; exact Bool.false_ne_true
  refine ⟨fun id action => ?_, fun id => ?_, fun id => ?_, fun id => ?_, fun id hpos => ?_⟩
  · rw [hcrud, hdid, hlost, howes, hp]
    rfl
  · rw [Registry.stock, hstock, hdid, hdid]
    rfl
  · rw [hissued, hdid, Nat.add_zero]
  · rw [hdid]
    exact Nat.zero_le 1
  · rw [hdid] at hpos
    cases hpos

theorem stepped {s s' : Registry} {p : Request} {fate : Fate} {ps : List Request}
    {seen : List Seen} (hrows : ∀ id, (s.db.webhook id).isSome → id ∈ s.issued)
    (h : p.step settings s fate = some (s', ps, seen)) : Stepped s p s' ps seen := by
  unfold Request.step at h
  split at h
  case h_1 r id =>
    split at h
    case isTrue => cases h
    case isFalse hnew =>
      cases h
      refine ⟨fun id' action => ?_, fun id' => ?_, fun id' => ?_, fun id' => ?_, fun id' hpos => ?_⟩
      · simp [Registry.insert, Request.owes, Seen.lost, Seen.did]
      · simp only [Registry.stock, Registry.insert]
        by_cases hid : id' = id
        · subst hid
          have hnone := mt (hrows id') hnew
          simp [Seen.did, hnone]
        · simp [Seen.did, Function.update_of_ne hid, Ne.symm hid]
      · simp [Registry.insert, Seen.did, List.count_cons]
      · exact List.countP_le_length
      · obtain rfl : id = id' := by
          by_contra hne
          simp [Seen.did, hne] at hpos
        exact hnew
  case h_3 id r =>
    cases h
    refine ⟨fun id' action => ?_, fun id' => rfl, fun id' => rfl, fun id' => Nat.zero_le 1,
      fun id' hpos => ?_⟩
    · simp [Registry.write, Request.owes, CrudEntry.isAbout, List.countP_cons]
    · cases hpos
  case h_4 id r =>
    cases h
    refine ⟨fun id' action => ?_, fun id' => rfl, fun id' => rfl, fun id' => Nat.zero_le 1,
      fun id' hpos => ?_⟩
    · simp [Request.owes, Seen.lost, Seen.did, List.countP_cons]
    · cases hpos
  case h_5 id ownerWallet =>
    split at h
    case h_1 row hrow =>
      cases h
      obtain ⟨hrow, -⟩ := Option.filter_eq_some_iff.mp hrow
      refine ⟨fun id' action => ?_, fun id' => ?_, fun id' => ?_, fun id' => ?_, fun id' hpos => ?_⟩
      · simp [Registry.delete, Request.owes, Seen.lost, Seen.did]
      · simp only [Registry.stock, Registry.delete]
        by_cases hid : id' = id
        · subst hid
          simp [Seen.did, hrow]
        · simp [Seen.did, Function.update_of_ne hid, Ne.symm hid]
      · simp [Registry.delete, Seen.did]
      · exact List.countP_le_length
      · simp [Seen.did] at hpos
    case h_2 =>
      cases h
      exact .quiet rfl rfl (fun _ => rfl) (fun _ _ => rfl) (by simp) (by simp)
  case h_7 id ownerWallet =>
    cases h
    refine ⟨fun id' action => ?_, fun id' => rfl, fun id' => rfl, fun id' => Nat.zero_le 1,
      fun id' hpos => ?_⟩
    · simp [Registry.write, Request.owes, CrudEntry.isAbout, List.countP_cons]
    · cases hpos
  case h_8 id ownerWallet =>
    cases h
    refine ⟨fun id' action => ?_, fun id' => rfl, fun id' => rfl, fun id' => Nat.zero_le 1,
      fun id' hpos => ?_⟩
    · simp [Request.owes, Seen.lost, Seen.did, List.countP_cons]
    · cases hpos
  case h_9 id ownerWallet payload =>
    split at h <;> cases h
    · exact .quiet rfl rfl (fun _ => rfl) (fun _ _ => rfl) (by simp [Request.ofJob, Request.owes])
        (by simp [Seen.did, Seen.lost])
    · exact .quiet rfl rfl (fun _ => rfl) (fun _ _ => rfl) (by simp) (by simp [Seen.did, Seen.lost])
  case h_2 | h_6 | h_10 | h_12 =>
    cases h
    exact .quiet rfl rfl (fun _ => rfl) (fun _ _ => rfl) (by simp) (by simp)
  case h_11 =>
    cases h
    exact .quiet rfl rfl (fun _ => rfl) (fun _ _ => rfl) (by simp [Request.ofJob, Request.owes])
      (by simp)
  case h_13 d x =>
    split at h
    case isTrue => cases h
    case isFalse =>
      obtain ⟨⟨db, ds, os⟩, hd, heq⟩ := Option.map_eq_some_iff.mp h
      cases heq
      exact .quiet rfl rfl (fun id => ((delivered hd).webhook id).1) (fun _ _ => rfl)
        (by simp [Request.owes]) (by simp [Seen.did, Seen.lost])
  case h_14 => cases h

/-- What all of the requests keep in balance together. -/
structure Balanced (s : Registry) (running : List Request) (log : List Seen) : Prop where
  rows : ∀ id, (s.db.webhook id).isSome → id ∈ s.issued
  logged : ∀ id action, s.crud.countP (·.isAbout id action) +
    running.countP (·.owes id action) + log.countP (·.lost id action) =
      log.countP (·.did id action)
  stock : ∀ id, s.stock id + log.countP (·.did id .deleted) = log.countP (·.did id .created)
  issued : ∀ id, s.issued.count id = log.countP (·.did id .created)
  once : ∀ id, log.countP (·.did id .created) ≤ 1

/-- One request, in the midst of the others. -/
theorem Balanced.step {s s' : Registry} {before after ps : List Request} {p : Request}
    {fate : Fate} {log seen : List Seen} (h : Balanced s (before ++ p :: after) log)
    (hs : p.step settings s fate = some (s', ps, seen)) :
    Balanced s' (before ++ ps ++ after) (log ++ seen) := by
  have hstep := stepped h.rows hs
  have hstock : ∀ id, s'.stock id + (log ++ seen).countP (·.did id .deleted) =
      (log ++ seen).countP (·.did id .created) := fun id => by
    have h₁ := h.stock id
    have h₂ := hstep.stock id
    rw [List.countP_append, List.countP_append]
    omega
  have hissued : ∀ id, s'.issued.count id = (log ++ seen).countP (·.did id .created) :=
    fun id => by rw [hstep.issued, h.issued, List.countP_append]
  refine ⟨fun id hrow => ?_, fun id action => ?_, hstock, hissued, fun id => ?_⟩
  · have hone : s'.stock id = 1 := if_pos hrow
    have h₁ := hstock id
    have h₂ := hissued id
    exact List.count_pos_iff.mp (by omega)
  · have h₁ := h.logged id action
    have h₂ := hstep.logged id action
    simp only [List.countP_append, List.countP_cons] at h₁ ⊢
    omega
  · rw [List.countP_append]
    rcases Nat.eq_zero_or_pos (seen.countP (·.did id .created)) with hzero | hpos
    · rw [hzero]
      exact h.once id
    · have hnone := List.count_eq_zero.mpr (hstep.new id hpos)
      rw [← h.issued, hnone, Nat.zero_add]
      exact hstep.once id

theorem balanced {P : Pool Registry Request Seen} (h : Reachable settings P) :
    Balanced P.shared P.running P.log := by
  refine h.invariant (I := fun P => Balanced P.shared P.running P.log) ?_ ?_ ?_
  · intro s before p after log fate s' ps seen hI _ hs
    exact hI.step hs
  · rintro s running log a s' ps seen hI - ⟨⟩
    refine ⟨hI.rows, fun id action => ?_, ?_, ?_, ?_⟩
    · have hnone : a.request.owes id action = false := by cases a <;> rfl
      rw [List.append_nil, List.singleton_append, List.countP_cons, hnone]
      exact hI.logged id action
    · simpa only [List.append_nil] using hI.stock
    · simpa only [List.append_nil] using hI.issued
    · simpa only [List.append_nil] using hI.once
  · exact ⟨nofun, fun _ _ => rfl, fun _ => rfl, fun _ => rfl, fun _ => Nat.zero_le 1⟩

/-! ### Who a webhook belongs to -/

/-- The wallet has registered the webhook. -/
def RegisteredBy (log : List Seen) (id ownerWallet : String) : Prop :=
  ∃ r, .created id r ∈ log ∧ r.ownerWallet = ownerWallet

/-- The webhook has been registered as the row has it. -/
def RegisteredAs (log : List Seen) (id : String) (row : Webhook) : Prop :=
  ∃ r, .created id r ∈ log ∧ row.Alike r.webhook

theorem RegisteredAs.by {log : List Seen} {id : String} {row : Webhook}
    (h : RegisteredAs log id row) : RegisteredBy log id row.ownerWallet := by
  obtain ⟨r, hr, halike⟩ := h
  exact ⟨r, hr, halike.1.symm⟩

theorem RegisteredBy.append {log : List Seen} {id ownerWallet : String}
    (h : RegisteredBy log id ownerWallet) (seen : List Seen) :
    RegisteredBy (log ++ seen) id ownerWallet := by
  obtain ⟨r, hr, howner⟩ := h
  exact ⟨r, List.mem_append_left seen hr, howner⟩

theorem RegisteredAs.append {log : List Seen} {id : String} {row : Webhook}
    (h : RegisteredAs log id row) (seen : List Seen) : RegisteredAs (log ++ seen) id row := by
  obtain ⟨r, hr, halike⟩ := h
  exact ⟨r, List.mem_append_left seen hr, halike⟩

/-- An entry of the audit log says what was done, and by whom. -/
def CrudEntry.Justified (log : List Seen) (e : CrudEntry) : Prop :=
  match e.action with
  | .created => ∃ r, .created e.webhookId r ∈ log ∧ e.ownerWallet = r.ownerWallet ∧
      e.details = some (r.url, r.validTypes)
  | .deleted => .removed e.webhookId e.ownerWallet ∈ log ∧ e.details = none

theorem CrudEntry.Justified.append {log : List Seen} {e : CrudEntry} (h : e.Justified log)
    (seen : List Seen) : e.Justified (log ++ seen) := by
  unfold CrudEntry.Justified at h ⊢
  split at h
  · obtain ⟨r, hr, hrest⟩ := h
    exact ⟨r, List.mem_append_left seen hr, hrest⟩
  · exact ⟨List.mem_append_left seen h.1, h.2⟩

/-- What a request goes by is so. -/
def Request.Assured (log : List Seen) : Request → Prop
  | .logCreated id r => .created id r ∈ log
  | .logDeleted id ownerWallet => .removed id ownerWallet ∈ log
  | .deliver d => ∀ webhook ∈ d.next.read, RegisteredAs log d.job.webhookId webhook
  | _ => True

theorem Request.Assured.append {log : List Seen} {p : Request} (h : p.Assured log)
    (seen : List Seen) : p.Assured (log ++ seen) := by
  cases p with
  | create | remove | ping | dispatch => trivial
  | logCreated | logDeleted => exact List.mem_append_left seen h
  | deliver d => exact fun webhook hread => (h webhook hread).append seen

/-- What is done to a webhook is done for the wallet that registered it. What is posted to it goes
to the address it was registered with, signed with the secret it was registered with. -/
def Warranted (settings : Settings) (pre : List Seen) : Seen → Prop
  | .removed id ownerWallet => RegisteredBy pre id ownerWallet
  | .pinged id ownerWallet true => RegisteredBy pre id ownerWallet
  | .delivery (.posted id url body sig) =>
    ∃ r, .created id r ∈ pre ∧ url = r.url ∧ sig = signature settings r.webhook body
  | _ => True

theorem Warranted.append (pre new : List Seen) (x : Seen) (h : Warranted settings pre x) :
    Warranted settings (pre ++ new) x := by
  unfold Warranted at h ⊢
  split at h
  · exact RegisteredBy.append h new
  · exact RegisteredBy.append h new
  · obtain ⟨r, hr, hrest⟩ := h
    exact ⟨r, List.mem_append_left new hr, hrest⟩
  · trivial

/-- The tables and the log agree on who registered what. -/
structure Attributed (settings : Settings) (s : Registry) (log : List Seen) : Prop where
  rows : ∀ id, ∀ row ∈ s.db.webhook id, RegisteredAs log id row
  crud : ∀ e ∈ s.crud, e.Justified log
  attempts : ∀ e ∈ s.db.webhookAuditLog, RegisteredBy log e.webhookId e.ownerWallet
  warranted : Preceded (Warranted settings) log

theorem owned_eq_some {s : Registry} {id ownerWallet : String} {row : Webhook}
    (h : s.owned id ownerWallet = some row) :
    s.db.webhook id = some row ∧ row.ownerWallet = ownerWallet := by
  obtain ⟨hrow, howner⟩ := Option.filter_eq_some_iff.mp h
  exact ⟨hrow, of_decide_eq_true howner⟩

namespace Attributed

variable {s : Registry} {log seen : List Seen}

theorem append (h : Attributed settings s log) (hseen : ∀ y ∈ seen, Warranted settings log y) :
    Attributed settings s (log ++ seen) where
  rows id row hrow := (h.rows id row hrow).append seen
  crud e he := (h.crud e he).append seen
  attempts e he := (h.attempts e he).append seen
  warranted := h.warranted.append Warranted.append hseen

/-- A wallet that is found to own a webhook has registered it. -/
theorem owned {id ownerWallet : String} {row : Webhook} (h : Attributed settings s log)
    (howned : s.owned id ownerWallet = some row) : RegisteredBy log id ownerWallet := by
  obtain ⟨hrow, howner⟩ := owned_eq_some howned
  exact howner ▸ (h.rows id row hrow).by

theorem insert (h : Attributed settings s log) (id : String) (r : Registration) :
    Attributed settings (s.insert id r) (log ++ [.created id r]) := by
  have h' : Attributed settings s (log ++ [.created id r]) :=
    h.append (by simp [Warranted])
  refine ⟨fun id' row hrow => ?_, h'.crud, h'.attempts, h'.warranted⟩
  by_cases hid : id' = id
  · subst hid
    simp only [Registry.insert, Function.update_self, Option.mem_some_iff] at hrow
    exact ⟨r, List.mem_concat_self, hrow ▸ .refl _⟩
  · simp only [Registry.insert, Function.update_of_ne hid] at hrow
    exact h'.rows id' row hrow

theorem delete {id ownerWallet : String} (h : Attributed settings s log)
    (hby : RegisteredBy log id ownerWallet) :
    Attributed settings (s.delete id) (log ++ [.removed id ownerWallet]) := by
  have h' : Attributed settings s (log ++ [.removed id ownerWallet]) :=
    h.append (by simpa [Warranted] using hby)
  refine ⟨fun id' row hrow => ?_, h'.crud, h'.attempts, h'.warranted⟩
  by_cases hid : id' = id
  · subst hid
    simp [Registry.delete] at hrow
  · simp only [Registry.delete, Function.update_of_ne hid] at hrow
    exact h'.rows id' row hrow

theorem write {e : CrudEntry} (h : Attributed settings s log) (he : e.Justified log) :
    Attributed settings (s.write e) log := by
  refine ⟨h.rows, fun e' he' => ?_, h.attempts, h.warranted⟩
  rcases List.mem_append.mp he' with he' | he'
  · exact h.crud e' he'
  · obtain rfl := List.mem_singleton.mp he'
    exact he

/-- One call of a delivery that goes by a webhook as it was registered. -/
theorem deliver (h : Attributed settings s log)
    (hread : ∀ webhook ∈ call.read, RegisteredAs log job.webhookId webhook)
    (hd : Webhooks.deliver settings s.db job call x = some (db', ds, os)) :
    Attributed settings { s with db := db' } (log ++ os.map .delivery) ∧
      ∀ d ∈ ds, (Request.deliver d).Assured (log ++ os.map .delivery) := by
  have hdel := delivered hd
  have h' : Attributed settings s (log ++ os.map .delivery) := by
    refine h.append fun y hy => ?_
    obtain ⟨o, ho, rfl⟩ := List.mem_map.mp hy
    cases o with
    | posted id url body sig =>
      obtain ⟨rfl, -, webhook, hwebhook, rfl, rfl⟩ := hdel.posted id url body sig ho
      obtain ⟨r, hr, halike⟩ := hread webhook hwebhook
      exact ⟨r, hr, halike.2.1, signature_alike halike body⟩
    | updated | thrown => trivial
  refine ⟨⟨fun id row hrow => ?_, h'.crud, fun e he => ?_, h'.warranted⟩, fun d hd => ?_⟩
  · obtain ⟨row', hrow', halike⟩ := (hdel.webhook id).2 row hrow
    obtain ⟨r, hr, halike'⟩ := h'.rows id row' hrow'
    exact ⟨r, hr, halike.trans halike'⟩
  · rcases hdel.auditLog e he with he | ⟨hid, webhook, hwebhook, howner⟩
    · exact h'.attempts e he
    · rw [hid, howner]
      exact ((hread webhook hwebhook).append _).by
  · obtain ⟨hjob, webhook, hnext, hfrom⟩ := hdel.next d hd
    intro webhook' hnext'
    obtain rfl := Option.mem_unique hnext' hnext
    rw [hjob]
    rcases hfrom with hcall | ⟨-, hrow⟩
    · exact (hread webhook' hcall).append _
    · exact h'.rows job.webhookId webhook' hrow

/-- One call of a request that goes by what is so. -/
theorem step {s' : Registry} {p : Request} {fate : Fate} {ps : List Request}
    (h : Attributed settings s log) (hp : p.Assured log)
    (hs : p.step settings s fate = some (s', ps, seen)) :
    Attributed settings s' (log ++ seen) ∧ ∀ q ∈ ps, q.Assured (log ++ seen) := by
  unfold Request.step at hs
  split at hs
  case h_1 r id =>
    split at hs <;> cases hs
    exact ⟨h.insert id r, by simp [Request.Assured]⟩
  case h_3 id r =>
    cases hs
    rw [List.append_nil]
    exact ⟨h.write ⟨r, hp, rfl, rfl⟩, by simp⟩
  case h_5 id ownerWallet =>
    split at hs
    case h_1 row hrow =>
      cases hs
      exact ⟨h.delete (h.owned hrow), by simp [Request.Assured]⟩
    case h_2 =>
      cases hs
      exact ⟨h.append (by simp), by simp⟩
  case h_7 id ownerWallet =>
    cases hs
    rw [List.append_nil]
    exact ⟨h.write ⟨hp, rfl⟩, by simp⟩
  case h_9 id ownerWallet payload =>
    split at hs
    case h_1 row hrow =>
      cases hs
      refine ⟨h.append ?_, by simp [Request.ofJob, Request.Assured, Call.read]⟩
      simpa [Warranted] using h.owned hrow
    case h_2 =>
      cases hs
      exact ⟨h.append (by simp [Warranted]), by simp⟩
  case h_2 | h_4 | h_6 | h_8 | h_10 | h_12 =>
    cases hs
    exact ⟨h.append (by simp [Warranted]), by simp⟩
  case h_11 =>
    cases hs
    exact ⟨h.append (by simp), by simp [Request.ofJob, Request.Assured, Call.read]⟩
  case h_13 d x =>
    split at hs
    case isTrue => cases hs
    case isFalse =>
      obtain ⟨⟨db, ds, os⟩, hd, heq⟩ := Option.map_eq_some_iff.mp hs
      cases heq
      obtain ⟨h', hnext⟩ := h.deliver hp hd
      refine ⟨h', fun q hq => ?_⟩
      obtain ⟨d', hd', rfl⟩ := List.mem_map.mp hq
      exact hnext d' hd'
  case h_14 => cases hs

end Attributed

theorem attributed {P : Pool Registry Request Seen} (h : Reachable settings P) :
    Attributed settings P.shared P.log := by
  refine (h.assertions (I := Attributed settings) (J := fun _ log p => p.Assured log) ?_ ?_ ?_
    ?_).1
  · intro s p log fate s' ps seen hI hp hs
    obtain ⟨hI', hps⟩ := hI.step hp hs
    exact ⟨hI', hps, fun q hq => hq.append seen⟩
  · rintro s log a s' ps seen hI ⟨⟩
    refine ⟨hI.append (by simp), fun q hq => ?_, fun q hq => hq.append []⟩
    obtain rfl := List.mem_singleton.mp hq
    cases a <;> first | trivial | exact nofun
  · exact ⟨nofun, nofun, nofun, preceded_nil⟩
  · exact nofun

/-! ### Over whole runs -/

section Runs

variable {P P' : Pool Registry Request Seen} {id : String}

theorem Balanced.removed_le {s : Registry} {running : List Request} {log : List Seen}
    (h : Balanced s running log) (id : String) :
    s.stock id + log.countP (·.did id .deleted) ≤ 1 := by
  rw [h.stock]
  exact h.once id

/-- Whatever is done to a webhook is done once. -/
theorem Balanced.did_le {s : Registry} {running : List Request} {log : List Seen}
    (h : Balanced s running log) (id : String) (action : CrudAction) :
    log.countP (·.did id action) ≤ 1 := by
  cases action with
  | created => exact h.once id
  | deleted =>
    have := h.removed_le id
    omega

theorem created_pos {log : List Seen} {r : Registration} (h : .created id r ∈ log) :
    0 < log.countP (·.did id .created) :=
  List.countP_pos_iff.mpr ⟨_, h, by simp [Seen.did]⟩

/-- A webhook is there exactly if it has been registered and not removed. -/
theorem present_iff (h : Balanced P.shared P.running P.log) :
    (P.shared.db.webhook id).isSome ↔
      (∃ r, .created id r ∈ P.log) ∧ ∀ ownerWallet, .removed id ownerWallet ∉ P.log := by
  have hstock := h.stock id
  have honce := h.once id
  rw [Registry.stock] at hstock
  constructor
  · intro hrow
    rw [if_pos hrow] at hstock
    have hcreated : 0 < P.log.countP (·.did id .created) := by omega
    obtain ⟨y, hy, hdid⟩ := List.countP_pos_iff.mp hcreated
    refine ⟨?_, fun ownerWallet hremoved => ?_⟩
    · cases y with
      | created id' r =>
        obtain rfl : id' = id := by simpa [Seen.did] using hdid
        exact ⟨r, hy⟩
      | removed | unlogged | pinged | delivery => simp [Seen.did] at hdid
    · have hpos : 0 < P.log.countP (·.did id .deleted) :=
        List.countP_pos_iff.mpr ⟨_, hremoved, by simp [Seen.did]⟩
      omega
  · rintro ⟨⟨r, hr⟩, hkept⟩
    have hcreated := created_pos hr
    have hnone : P.log.countP (·.did id .deleted) = 0 := by
      refine List.countP_eq_zero.mpr fun y hy hdid => ?_
      cases y with
      | removed id' ownerWallet =>
        obtain rfl : id' = id := by simpa [Seen.did] using hdid
        exact hkept ownerWallet hy
      | created | unlogged | pinged | delivery => simp [Seen.did] at hdid
    by_contra hrow
    rw [if_neg hrow] at hstock
    omega

/-- A webhook is registered once. -/
theorem created_unique (h : Balanced P.shared P.running P.log) {r r' : Registration}
    (hr : .created id r ∈ P.log) (hr' : .created id r' ∈ P.log) : r = r' := by
  have hone : (P.log.filter (·.did id .created)).length = 1 := by
    have hpos := created_pos hr
    have hle := h.once id
    rw [List.countP_eq_length_filter] at hpos hle
    omega
  obtain ⟨y, hy⟩ := List.length_eq_one_iff.mp hone
  have heq : ∀ r, Seen.created id r ∈ P.log → Seen.created id r = y := fun r hr => by
    have hdid : (Seen.created id r).did id .created := by simp [Seen.did]
    have hmem := List.mem_filter.mpr ⟨hr, hdid⟩
    exact List.mem_singleton.mp (hy ▸ hmem)
  exact (Seen.created.inj ((heq r hr).trans (heq r' hr').symm)).2

/-- **The audit log.** In whatever order the calls come, of what is done to a webhook as many
entries are written, still to be written and lost to a failing database as it is done, and it is
done once at most. Every entry says what was done, and by whom; every entry of an attempt to
deliver is about a webhook that its wallet registered. A wallet is shown the webhooks it
registered that were not removed. -/
theorem webhook_audited (h : Reachable settings P) :
    (∀ id action, P.log.countP (·.did id action) ≤ 1 ∧
      P.shared.crud.countP (·.isAbout id action) + P.running.countP (·.owes id action) +
        P.log.countP (·.lost id action) = P.log.countP (·.did id action)) ∧
      (∀ e ∈ P.shared.crud, e.Justified P.log) ∧
      (∀ e ∈ P.shared.db.webhookAuditLog, RegisteredBy P.log e.webhookId e.ownerWallet) ∧
      ∀ id ownerWallet, id ∈ P.shared.list ownerWallet ↔
        RegisteredBy P.log id ownerWallet ∧ ∀ wallet, .removed id wallet ∉ P.log := by
  have hb := balanced h
  have ha := attributed h
  refine ⟨fun id action => ⟨hb.did_le id action, hb.logged id action⟩, ha.crud, ha.attempts,
    fun id ownerWallet => ?_⟩
  rw [Registry.list, List.mem_filter]
  constructor
  · rintro ⟨-, howned⟩
    obtain ⟨row, hrow, howner⟩ := (Option.any_eq_true _ _).mp howned
    have howner : row.ownerWallet = ownerWallet := of_decide_eq_true howner
    exact ⟨howner ▸ (ha.rows id row hrow).by,
      ((present_iff hb).mp (Option.isSome_of_mem hrow)).2⟩
  · rintro ⟨⟨r, hr, rfl⟩, hkept⟩
    have hsome := (present_iff hb).mpr ⟨⟨r, hr⟩, hkept⟩
    obtain ⟨row, hrow⟩ := Option.isSome_iff_exists.mp hsome
    obtain ⟨r', hr', halike⟩ := ha.rows id row hrow
    have howner : row.ownerWallet = r.ownerWallet := created_unique hb hr hr' ▸ halike.1
    exact ⟨hb.rows id hsome, by simp [hrow, howner]⟩

/-- A registration with a secret, for two events of which one is not known. -/
def alerts : Registration := ⟨"GA", "https://example", ["swap", "burn"], some "s"⟩

def testEvent : WebhookPayload := ⟨.swap, "\x7b\x7d"⟩

/-- A signature that shows what is signed, and with which secret. -/
def signing : Settings := ⟨10, 3, fun secret body => secret ++ body⟩

/-- A wallet registers a webhook, sends it a test event, which is answered, and removes it. -/
def comeAndGone : List (Act Fate Arrival) :=
  [.outside (.create alerts), .step 0 (.inserted "w"), .step 0 .served,
    .outside (.ping "w" "GA" testEvent), .step 0 .served, .step 0 (.replied .served),
    .step 0 (.replied (.responded 200 40)), .step 0 (.replied .served),
    .step 0 (.replied .served), .step 0 (.replied .served),
    .outside (.remove "w" "GA"), .step 0 .served, .step 0 .served]

theorem webhook_audited_gone : ∃ P : Pool Registry Request Seen, P.running = [] ∧
    P.shared.crud.length = 2 ∧ P.shared.db.webhookAuditLog.length = 1 ∧
    (∀ e ∈ P.shared.crud, e.Justified P.log) ∧
    ("w" ∈ P.shared.list "GA" ↔
      RegisteredBy P.log "w" "GA" ∧ ∀ wallet, .removed "w" wallet ∉ P.log) := by
  have hrun : ((registry signing).run ⟨.empty, [], []⟩ comeAndGone).map (fun P =>
      (P.running, P.shared.crud.length, P.shared.db.webhookAuditLog.length)) = some _ := rfl
  obtain ⟨P, hP, hseen⟩ := Option.map_eq_some_iff.mp hrun
  obtain ⟨hrunning, hseen⟩ := Prod.mk.inj hseen
  obtain ⟨hcrud, hattempts⟩ := Prod.mk.inj hseen
  have h := webhook_audited (reaches_of_run hP (along_of_forall (fun _ _ _ => trivial) _))
  exact ⟨P, hrunning, hcrud, hattempts, h.2.1, h.2.2.2 "w" "GA"⟩

/-- How many posts to a webhook there have been or are about to be. -/
def posts (id : String) (running : List Request) (log : List Seen) : ℕ :=
  log.countP (·.postedTo id) + running.countP (·.posts id)

/-- A call of a request, while the webhook is not there, leads to a post only where one was about
to be made. -/
theorem posts_step {s s' : Registry} {p : Request} {fate : Fate} {ps : List Request}
    {seen : List Seen} (hgone : s.db.webhook id = none)
    (hs : p.step settings s fate = some (s', ps, seen)) :
    posts id ps seen ≤ if p.posts id then 1 else 0 := by
  unfold Request.step at hs
  split at hs
  case h_1 =>
    split at hs <;> cases hs
    simp [posts, Request.posts, Seen.postedTo]
  case h_5 | h_9 =>
    split at hs <;> cases hs <;>
      simp [posts, Request.posts, Request.ofJob, Call.posts, Seen.postedTo]
  case h_2 | h_3 | h_4 | h_6 | h_7 | h_8 | h_10 | h_12 =>
    cases hs
    simp [posts, Request.posts, Seen.postedTo]
  case h_11 =>
    cases hs
    simp [posts, Request.posts, Request.ofJob, Call.posts, Seen.postedTo, List.countP_map]
  case h_13 d x =>
    split at hs
    case isTrue => cases hs
    case isFalse =>
      obtain ⟨⟨db, ds, os⟩, hd, heq⟩ := Option.map_eq_some_iff.mp hs
      cases heq
      have hdel := delivered hd
      rw [posts, List.countP_map, List.countP_map]
      by_cases hid : d.job.webhookId = id
      · have hposts := hdel.posts id
        rw [hid, hgone] at hposts
        have hle : ds.countP (Request.posts id ∘ .deliver) ≤ ds.countP (fun d => d.next.posts) :=
          List.countP_mono_left fun d' _ h => by simp_all [Request.posts]
        have hsame : (Request.deliver d).posts id = d.next.posts := by simp [Request.posts, hid]
        rw [hsame]
        calc os.countP (Seen.postedTo id ∘ .delivery) + ds.countP (Request.posts id ∘ .deliver)
          _ ≤ os.countP (Observed.postedTo id) + ds.countP (fun d => d.next.posts) :=
            Nat.add_le_add_left hle _
          _ ≤ if d.next.posts then 1 else 0 := by simpa using hposts
      · have hos : os.countP (Seen.postedTo id ∘ .delivery) = 0 := by
          refine List.countP_eq_zero.mpr fun o ho hpost => ?_
          cases o with
          | posted id' url body sig =>
            have hposted : id' = id := by simpa [Seen.postedTo, Observed.postedTo] using hpost
            exact hid ((hdel.posted id' url body sig ho).1.symm.trans hposted)
          | updated | thrown => simp [Seen.postedTo, Observed.postedTo] at hpost
        have hds : ds.countP (Request.posts id ∘ .deliver) = 0 := by
          refine List.countP_eq_zero.mpr fun d' hd' hpost => ?_
          have hjob := (hdel.next d' hd').1
          simp [Request.posts, hjob, hid] at hpost
        rw [hos, hds]
        exact Nat.zero_le _
  case h_14 => cases hs

/-- A webhook that was removed stays away: its identifier is not made again. -/
structure Gone (id : String) (s : Registry) : Prop where
  row : s.db.webhook id = none
  issued : id ∈ s.issued

theorem gone_of_removed {ownerWallet : String} (h : Reachable settings P)
    (hremoved : .removed id ownerWallet ∈ P.log) : Gone id P.shared := by
  have hb := balanced h
  have hpos : 0 < P.log.countP (·.did id .deleted) :=
    List.countP_pos_iff.mpr ⟨_, hremoved, by simp [Seen.did]⟩
  have hle := hb.removed_le id
  constructor
  · by_contra hrow
    have hone : P.shared.stock id = 1 := if_pos (Option.isSome_iff_ne_none.mpr hrow)
    omega
  · have hstock := hb.stock id
    have hissued := hb.issued id
    exact List.count_pos_iff.mp (by omega)

theorem Gone.step {s s' : Registry} {p : Request} {fate : Fate} {ps : List Request}
    {seen : List Seen} (h : Gone id s) (hrows : ∀ id, (s.db.webhook id).isSome → id ∈ s.issued)
    (hs : p.step settings s fate = some (s', ps, seen)) : Gone id s' := by
  have hstep := stepped hrows hs
  have hnone : seen.countP (·.did id .created) = 0 :=
    Nat.eq_zero_of_not_pos fun hpos => hstep.new id hpos h.issued
  have hstock := hstep.stock id
  have hissued := hstep.issued id
  have hzero : s.stock id = 0 := by simp [Registry.stock, h.row]
  constructor
  · by_contra hrow
    have hone : s'.stock id = 1 := if_pos (Option.isSome_iff_ne_none.mpr hrow)
    omega
  · have := List.count_pos_iff.mpr h.issued
    exact List.count_pos_iff.mp (by omega)

/-- A webhook is removed while a delivery is about to post to it. -/
def removedMeanwhile : List (Act Fate Arrival) :=
  [.outside (.create alerts), .step 0 (.inserted "w"), .step 0 .served,
    .outside (.ping "w" "GA" testEvent), .step 0 .served, .step 0 (.replied .served),
    .outside (.remove "w" "GA"), .step 0 .served]

/-- The delivery posts, and a job that is retried after that does not. -/
def leftOver : List (Act Fate Arrival) :=
  [.step 1 (.replied (.responded 200 40)), .outside (.job (newJob signing testEvent "w")),
    .step 0 (.replied .served)]

end Runs

end Swyft.Webhooks
