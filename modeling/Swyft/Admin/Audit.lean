import Mathlib.Algebra.GroupWithZero.Nat
import Mathlib.Data.List.Infix
import Swyft.Lib.Checked
import Swyft.Lib.Interleaving
import Swyft.Lib.OrderedSet

/-!
# Audit records of administrators

`record` of `apps/api/src/admin/admin-audit.service.ts`: a call is checked, and a record of it is
persisted unless its idempotency key was seen. The key is noted when the record has been persisted.

A call is a process. It is checked at once, waits for the record to be persisted and then notes the
key; in between other calls may come.

## What is deliberately absent

Logs. How a record is persisted: that it is or that it fails is told from outside. A value of the
metadata is the text it is written as.

## Main results

* `idempotent_of_alone` — a key is used once, if no call passes the checks while another with its
  key is under way
* `exists_not_idempotent` — otherwise the two records may both be persisted
-/

namespace Swyft.Admin

open Checked Interleaving

/-! ### Records -/

inductive AdminAuditErrorCode where
  | unauthorized | forbidden | invalidInput | dependencyUnavailable | duplicateRequest
  deriving DecidableEq

def AdminAuditErrorCode.text : AdminAuditErrorCode → String
  | unauthorized => "ADMIN_AUDIT_UNAUTHORIZED"
  | forbidden => "ADMIN_AUDIT_FORBIDDEN"
  | invalidInput => "ADMIN_AUDIT_INVALID_INPUT"
  | dependencyUnavailable => "ADMIN_AUDIT_DEPENDENCY_UNAVAILABLE"
  | duplicateRequest => "ADMIN_AUDIT_DUPLICATE_REQUEST"

structure AdminAuditError where
  code : AdminAuditErrorCode
  message : String
  correlationId : String
  deriving DecidableEq

/-- `ADMIN_AUDIT_ALLOWED_ROLES`. -/
def allowedRoles : List String := ["admin", "superadmin", "auditor"]

/-- `ADMIN_AUDIT_ALLOWED_NETWORKS`. -/
def allowedNetworks : List String := ["testnet", "futurenet", "mainnet"]

structure AdminAuditActor where
  id : String
  role : String
  expiresAt : Option ℤ
  deriving DecidableEq

structure AdminAuditRequest where
  actor : Option AdminAuditActor
  action : String
  target : Option String
  idempotencyKey : String
  correlationId : Option String
  metadata : Option (List (String × String))
  deriving DecidableEq

structure AdminAuditRecord where
  correlationId : String
  actorId : String
  actorRole : String
  action : String
  target : Option String
  network : String
  idempotencyKey : String
  metadata : Option (List (String × String))
  timestamp : ℤ
  deriving DecidableEq

/-- The network that is configured, `STELLAR_NETWORK` of the environment, and `toLowerCase`. -/
structure AuditSettings where
  configured : Option String
  stellarNetwork : Option String
  toLowerCase : String → String

namespace AuditSettings

/-- `resolveNetwork`. -/
def resolveNetwork (A : AuditSettings) : String :=
  A.toLowerCase ((A.configured.or A.stellarNetwork).getD "testnet")

/-- `redactedKeys`. -/
def redactedKeys : List String := ["secret", "token", "password", "key", "authorization"]

/-- `sanitizeMetadata`. -/
def sanitizeMetadata (A : AuditSettings) (metadata : Option (List (String × String))) :
    Option (List (String × String)) :=
  metadata.map fun entries => entries.map fun (k, v) =>
    if redactedKeys.any fun r => r.toList <:+: (A.toLowerCase k).toList then
      (k, "\"[REDACTED]\"")
    else (k, v)

/-- `assertAuthorized`. -/
def assertAuthorized (now : ℤ) (actor : Option AdminAuditActor) (correlationId : String) :
    Except AdminAuditError AdminAuditActor :=
  match actor with
  | none => .error ⟨.unauthorized, "Missing admin audit actor", correlationId⟩
  | some actor =>
    if actor.id = "" then .error ⟨.unauthorized, "Missing admin audit actor", correlationId⟩
    else if ∃ expiresAt ∈ actor.expiresAt, expiresAt ≤ now then
      .error ⟨.unauthorized, "Admin audit actor session expired", correlationId⟩
    else if actor.role ∉ allowedRoles then
      .error ⟨.forbidden,
        "Role '" ++ actor.role ++ "' is not permitted to emit admin audit records", correlationId⟩
    else .ok actor

/-- The length of a text of the language, in units of UTF-16. -/
def textLength (text : String) : ℕ :=
  (text.toList.map fun c => if c.toNat < 0x10000 then 1 else 2).sum

/-- `assertValidInput`. -/
def assertValidInput (request : AdminAuditRequest) (correlationId : String) :
    Except AdminAuditError Unit :=
  if request.action = "" ∨ 128 < textLength request.action then
    .error ⟨.invalidInput, "Invalid admin audit action", correlationId⟩
  else if request.idempotencyKey = "" then
    .error ⟨.invalidInput, "Missing idempotency key", correlationId⟩
  else .ok ()

/-- What `record` checks before it looks at the key. -/
def check (A : AuditSettings) (now : ℤ) (request : AdminAuditRequest) (correlationId : String) :
    Except AdminAuditError AdminAuditActor := do
  let actor ← assertAuthorized now request.actor correlationId
  assertValidInput request correlationId
  let network := A.resolveNetwork
  if network ∈ allowedNetworks then .ok actor
  else
    .error ⟨.forbidden, "Admin audit is not permitted on network '" ++ network ++ "'",
      correlationId⟩

end AuditSettings

/-! ### Calls -/

/-- `AdminAuditService`, and the time. -/
structure AuditService where
  seenKeys : OrderedSet String
  records : List AdminAuditRecord
  now : ℤ

/-- What a call has still to do. -/
inductive Recording where
  | persisting (record : AdminAuditRecord)
  | registering (record : AdminAuditRecord)
  deriving DecidableEq

def Recording.key : Recording → String
  | persisting record | registering record => record.idempotencyKey

/-- What is seen. A call passes the checks, or is rejected. -/
inductive AuditSeen where
  | called (request : AdminAuditRequest) (now : ℤ) (rejected : Option AdminAuditErrorCode)
  | persisted (record : AdminAuditRecord)
  | threw (error : AdminAuditError)
  | returned (record : AdminAuditRecord)
  deriving DecidableEq

inductive AuditOccurrence where
  /-- `record` is called; the id is the one that `newCorrelationId` would make. -/
  | record (request : AdminAuditRequest) (newCorrelationId : String)
  | pass (milliseconds : ℕ)
  deriving DecidableEq

namespace AuditService

def start : AuditService := ⟨.empty, [], 0⟩

/-- `record`, up to where it waits. -/
def prepare (A : AuditSettings) (s : AuditService) (request : AdminAuditRequest)
    (newCorrelationId : String) : Except AdminAuditError AdminAuditRecord := do
  let correlationId := request.correlationId.getD newCorrelationId
  let actor ← A.check s.now request correlationId
  if request.idempotencyKey ∈ s.seenKeys then
    .error ⟨.duplicateRequest, "Duplicate admin audit request", correlationId⟩
  else
    .ok
      { correlationId
        actorId := actor.id
        actorRole := actor.role
        action := request.action
        target := request.target
        network := A.resolveNetwork
        idempotencyKey := request.idempotencyKey
        metadata := A.sanitizeMetadata request.metadata
        timestamp := s.now }

/-- The rest of `record`, told whether the record is persisted. -/
def step (s : AuditService) :
    Recording → Bool → Option (AuditService × List Recording × List AuditSeen)
  | .persisting record, true => some (s, [.registering record], [.persisted record])
  | .persisting record, false =>
    some (s, [], [.threw ⟨.dependencyUnavailable, "Admin audit store unavailable",
      record.correlationId⟩])
  | .registering record, _ =>
    some ({ s with
      seenKeys := s.seenKeys.add record.idempotencyKey
      records := s.records ++ [record] }, [], [.returned record])

def outside (A : AuditSettings) (s : AuditService) :
    AuditOccurrence → Option (AuditService × List Recording × List AuditSeen)
  | .record request newCorrelationId =>
    match s.prepare A request newCorrelationId with
    | .error error => some (s, [], [.called request s.now (some error.code)])
    | .ok record => some (s, [.persisting record], [.called request s.now none])
  | .pass milliseconds => some ({ s with now := s.now + milliseconds }, [], [])

/-- The rules of the service. -/
def rules (A : AuditSettings) : Rules AuditService Recording Bool AuditOccurrence AuditSeen :=
  ⟨step, outside A⟩

end AuditService

/-! ### Idempotency -/

/-- A record with a key was persisted. -/
def Used (key : String) (log : List AuditSeen) : Prop :=
  ∃ record, .persisted record ∈ log ∧ record.idempotencyKey = key

/-- A call meets all the requirements but that its key is new. -/
def Admissible (A : AuditSettings) (now : ℤ) (request : AdminAuditRequest) : Prop :=
  ∃ correlationId actor, A.check now request correlationId = .ok actor

/-- What may be seen after a log: a record with a key that is not used, and a call that is rejected
as a duplicate exactly if its key is used. -/
def Allowed (A : AuditSettings) (log : List AuditSeen) : AuditSeen → Prop
  | .persisted record => ¬ Used record.idempotencyKey log
  | .called request now rejected =>
    (Admissible A now request → Used request.idempotencyKey log →
      rejected = some .duplicateRequest) ∧
    (rejected = some .duplicateRequest → Used request.idempotencyKey log)
  | _ => True

/-- Each key is used once, and then calls with it are rejected as duplicates, and no others. -/
def Idempotent (A : AuditSettings) (log : List AuditSeen) : Prop := Preceded (Allowed A) log

/-- A call passes the checks only while no other with its key is under way. -/
def Alone (A : AuditSettings) (P : Pool AuditService Recording AuditSeen) :
    Act Bool AuditOccurrence → Prop
  | .outside (.record request newCorrelationId) =>
    (P.shared.prepare A request newCorrelationId).isOk → ∀ p ∈ P.running,
      p.key ≠ request.idempotencyKey
  | _ => True

/-! ### Every run -/

variable {A : AuditSettings} {P P' : Pool AuditService Recording AuditSeen}
  {s : AuditService} {log : List AuditSeen} {key : String}

theorem Used.append (h : Used key log) (seen : List AuditSeen) : Used key (log ++ seen) := by
  obtain ⟨record, hmem, hkey⟩ := h
  exact ⟨record, List.mem_append_left seen hmem, hkey⟩

theorem not_used_nil : ¬ Used key [] := by
  rintro ⟨record, hmem, -⟩
  exact List.not_mem_nil hmem

/-- An event that persists nothing uses no key. -/
theorem used_snoc_iff {x : AuditSeen} (hx : ∀ record, x ≠ .persisted record) :
    Used key (log ++ [x]) ↔ Used key log := by
  refine ⟨?_, fun h => h.append [x]⟩
  rintro ⟨record, hmem, hkey⟩
  rcases List.mem_append.mp hmem with hmem | hmem
  · exact ⟨record, hmem, hkey⟩
  · exact absurd (List.mem_singleton.mp hmem).symm (hx record)

theorem used_persisted_iff {record : AdminAuditRecord} :
    Used key (log ++ [.persisted record]) ↔ record.idempotencyKey = key ∨ Used key log := by
  constructor
  · rintro ⟨record', hmem, hkey⟩
    rcases List.mem_append.mp hmem with hmem | hmem
    · exact .inr ⟨record', hmem, hkey⟩
    · cases List.mem_singleton.mp hmem
      exact .inl hkey
  · rintro (hkey | hused)
    · exact ⟨record, by simp, hkey⟩
    · exact hused.append _

/-- The record of a call is not the first with its key to be persisted, or already is. -/
def Recording.IsNew (log : List AuditSeen) : Recording → Prop
  | persisting record => ¬ Used record.idempotencyKey log
  | registering _ => True

/-- A call is about to note a key. -/
def Recording.Notes (key : String) : Recording → Prop
  | persisting _ => False
  | registering record => record.idempotencyKey = key

/-- What every state of a run keeps: no two calls with one key are under way, and a key is used
exactly if it is noted or about to be. -/
structure Consistent (A : AuditSettings) (P : Pool AuditService Recording AuditSeen) : Prop where
  distinct : (P.running.map Recording.key).Nodup
  isNew : ∀ p ∈ P.running, p.IsNew P.log
  used : ∀ key, Used key P.log ↔ key ∈ P.shared.seenKeys ∨ ∃ p ∈ P.running, p.Notes key
  idempotent : Idempotent A P.log

theorem consistent_start : Consistent A ⟨.start, [], []⟩ where
  distinct := List.nodup_nil
  isNew _ h := absurd h List.not_mem_nil
  used key := by
    refine iff_of_false not_used_nil ?_
    rintro (h | ⟨p, h, -⟩)
    · exact OrderedSet.notMem_empty key h
    · exact List.not_mem_nil h
  idempotent := preceded_nil

/-! #### The checks -/

theorem assertAuthorized_congr {now : ℤ} {actor : Option AdminAuditActor} {id id' : String}
    {a : AdminAuditActor} (h : AuditSettings.assertAuthorized now actor id = .ok a) :
    AuditSettings.assertAuthorized now actor id' = .ok a := by
  unfold AuditSettings.assertAuthorized at h ⊢
  split at h
  · cases h
  · split_ifs at h ⊢
    exact h

theorem assertValidInput_congr {request : AdminAuditRequest} {id id' : String}
    (h : AuditSettings.assertValidInput request id = .ok ()) :
    AuditSettings.assertValidInput request id' = .ok () := by
  unfold AuditSettings.assertValidInput at h ⊢
  split_ifs at h ⊢
  rfl

/-- The checks do not depend on the correlation id. -/
theorem check_congr {now : ℤ} {request : AdminAuditRequest} {id id' : String}
    {a : AdminAuditActor} (h : A.check now request id = .ok a) :
    A.check now request id' = .ok a := by
  rw [AuditSettings.check, bind_eq_ok] at h ⊢
  obtain ⟨actor, hactor, h⟩ := h
  rw [bind_eq_ok] at h
  obtain ⟨⟨⟩, hinput, h⟩ := h
  refine ⟨actor, assertAuthorized_congr hactor, bind_eq_ok.mpr
    ⟨(), assertValidInput_congr hinput, ?_⟩⟩
  simp only at h ⊢
  split_ifs at h ⊢
  exact h

theorem check_error {now : ℤ} {request : AdminAuditRequest} {id : String} {e : AdminAuditError}
    (h : A.check now request id = .error e) : e.code ≠ .duplicateRequest := by
  rw [AuditSettings.check, bind_eq_error] at h
  rcases h with h | ⟨actor, -, h⟩
  · unfold AuditSettings.assertAuthorized at h
    split at h
    · cases h
      nofun
    · split_ifs at h <;> cases h <;> nofun
  · rcases bind_eq_error.mp h with h | ⟨-, -, h⟩
    · unfold AuditSettings.assertValidInput at h
      split_ifs at h <;> cases h <;> nofun
    · simp only at h
      split_ifs at h
      cases h
      nofun

/-- A call that passes has a new key. -/
theorem prepare_ok {request : AdminAuditRequest} {id : String} {record : AdminAuditRecord}
    (h : s.prepare A request id = .ok record) :
    record.idempotencyKey = request.idempotencyKey ∧ request.idempotencyKey ∉ s.seenKeys := by
  rw [AuditService.prepare, bind_eq_ok] at h
  obtain ⟨actor, -, h⟩ := h
  split_ifs at h with hseen
  cases h
  exact ⟨rfl, hseen⟩

/-- A call that meets the other requirements is rejected as a duplicate, and a duplicate's key was
noted. -/
theorem prepare_error {request : AdminAuditRequest} {id : String} {e : AdminAuditError}
    (h : s.prepare A request id = .error e) :
    (Admissible A s.now request → e.code = .duplicateRequest) ∧
      (e.code = .duplicateRequest → request.idempotencyKey ∈ s.seenKeys) := by
  rw [AuditService.prepare, bind_eq_error] at h
  rcases h with h | ⟨actor, -, h⟩
  · refine ⟨?_, fun hcode => absurd hcode (check_error h)⟩
    rintro ⟨id', actor, hcheck⟩
    rw [check_congr hcheck] at h
    cases h
  · split_ifs at h with hseen
    cases h
    exact ⟨fun _ => rfl, fun _ => hseen⟩

/-! #### One step -/

section

variable {before after : List Recording} {record : AdminAuditRecord}

/-- The other calls have other keys. -/
theorem Consistent.others {p : Recording}
    (h : Consistent A ⟨s, before ++ p :: after, log⟩) : ∀ q ∈ before ++ after, q.key ≠ p.key := by
  have hkeys := h.distinct
  rw [List.map_append, List.map_cons, List.nodup_middle, List.nodup_cons, ← List.map_append]
    at hkeys
  intro q hq hkey
  exact hkeys.1 (List.mem_map.mpr ⟨q, hq, hkey⟩)

/-- A call ends. -/
theorem Consistent.distinct_append {p : Recording}
    (h : Consistent A ⟨s, before ++ p :: after, log⟩) :
    ((before ++ after).map Recording.key).Nodup := by
  have hkeys := h.distinct
  rw [List.map_append, List.map_cons, List.nodup_middle, List.nodup_cons, ← List.map_append]
    at hkeys
  exact hkeys.2

/-- What is new stays so as long as no record with its key is persisted. -/
theorem Recording.IsNew.snoc {p : Recording} {x : AuditSeen} (h : p.IsNew log)
    (hx : ∀ record, x = .persisted record → p.key ≠ record.idempotencyKey) :
    p.IsNew (log ++ [x]) := by
  cases p with
  | registering record => trivial
  | persisting record =>
    rintro ⟨record', hmem, hkey⟩
    rcases List.mem_append.mp hmem with hmem | hmem
    · exact h ⟨record', hmem, hkey⟩
    · exact hx record' (List.mem_singleton.mp hmem).symm hkey.symm

/-- The record of a call is persisted. -/
theorem Consistent.persist (h : Consistent A ⟨s, before ++ .persisting record :: after, log⟩) :
    Consistent A ⟨s, before ++ .registering record :: after, log ++ [.persisted record]⟩ where
  distinct := by
    have hkeys := h.distinct
    rw [List.map_append, List.map_cons] at hkeys ⊢
    exact hkeys
  isNew := by
    refine forall_middle_iff.mpr ⟨trivial, fun q hq => ?_⟩
    refine ((forall_middle_iff.mp h.isNew).2 q hq).snoc ?_
    rintro record' ⟨⟩
    exact h.others q hq
  used key := by
    show Used key (log ++ [.persisted record]) ↔ key ∈ s.seenKeys ∨ _
    rw [used_persisted_iff, h.used key, exists_middle_iff, exists_middle_iff]
    simp only [Recording.Notes, false_or]
    exact or_left_comm
  idempotent := h.idempotent.snoc (h.isNew (.persisting record) (by simp))

/-- A call fails. -/
theorem Consistent.fail {error : AdminAuditError}
    (h : Consistent A ⟨s, before ++ .persisting record :: after, log⟩) :
    Consistent A ⟨s, before ++ after, log ++ [.threw error]⟩ where
  distinct := h.distinct_append
  isNew q hq := ((forall_middle_iff.mp h.isNew).2 q hq).snoc (by simp)
  used key := by
    show Used key (log ++ [.threw error]) ↔ key ∈ s.seenKeys ∨ _
    rw [used_snoc_iff (by simp), h.used key, exists_middle_iff]
    simp only [Recording.Notes, false_or]
  idempotent := h.idempotent.snoc trivial

/-- A call notes its key and returns. -/
theorem Consistent.register {records : List AdminAuditRecord}
    (h : Consistent A ⟨s, before ++ .registering record :: after, log⟩) :
    Consistent A ⟨{ s with seenKeys := s.seenKeys.add record.idempotencyKey, records },
      before ++ after, log ++ [.returned record]⟩ where
  distinct := h.distinct_append
  isNew q hq := ((forall_middle_iff.mp h.isNew).2 q hq).snoc (by simp)
  used key := by
    show Used key (log ++ [.returned record]) ↔ key ∈ s.seenKeys.add record.idempotencyKey ∨ _
    rw [used_snoc_iff (by simp), h.used key, exists_middle_iff, OrderedSet.mem_add, eq_comm]
    exact or_left_comm.trans or_assoc.symm
  idempotent := h.idempotent.snoc trivial

end

section

variable {running : List Recording} {request : AdminAuditRequest}

/-- A call passes the checks, and is alone with its key. -/
theorem Consistent.pass {record : AdminAuditRecord} (h : Consistent A ⟨s, running, log⟩)
    (hkey : record.idempotencyKey = request.idempotencyKey)
    (hunseen : request.idempotencyKey ∉ s.seenKeys)
    (halone : ∀ p ∈ running, p.key ≠ request.idempotencyKey) :
    Consistent A ⟨s, .persisting record :: running, log ++ [.called request s.now none]⟩ := by
  have hunused : ¬ Used request.idempotencyKey log := by
    rw [h.used]
    rintro (hseen | ⟨p, hp, hnotes⟩)
    · exact hunseen hseen
    · cases p with
      | persisting => exact hnotes
      | registering record' => exact halone _ hp hnotes
  refine ⟨List.nodup_cons.mpr ⟨?_, h.distinct⟩, ?_, fun key => ?_, h.idempotent.snoc ?_⟩
  · intro hmem
    obtain ⟨p, hp, hpkey⟩ := List.mem_map.mp hmem
    exact halone p hp (hpkey.trans hkey)
  · refine List.forall_mem_cons.mpr ⟨?_, fun q hq => (h.isNew q hq).snoc (by simp)⟩
    show ¬ Used record.idempotencyKey _
    rwa [hkey, used_snoc_iff (by simp)]
  · show Used key (log ++ [.called request s.now none]) ↔ key ∈ s.seenKeys ∨ _
    rw [used_snoc_iff (by simp), h.used key, List.exists_mem_cons_iff]
    simp only [Recording.Notes, false_or]
  · exact ⟨fun _ hused => absurd hused hunused, by simp⟩

/-- A call is rejected. -/
theorem Consistent.reject {id : String} {error : AdminAuditError}
    (h : Consistent A ⟨s, running, log⟩) (herror : s.prepare A request id = .error error) :
    Consistent A ⟨s, running, log ++ [.called request s.now (some error.code)]⟩ where
  distinct := h.distinct
  isNew q hq := (h.isNew q hq).snoc (by simp)
  used key := (used_snoc_iff (by simp)).trans (h.used key)
  idempotent := by
    refine h.idempotent.snoc ⟨fun hadmissible _ => ?_, fun hcode => ?_⟩
    · exact congrArg some ((prepare_error herror).1 hadmissible)
    · exact (h.used _).mpr (.inl ((prepare_error herror).2 (Option.some.inj hcode)))

end

/-! #### Runs -/

theorem consistent_of_alone (h : Reaches (AuditService.rules A) (Alone A) ⟨.start, [], []⟩ P) :
    Consistent A P := by
  refine h.invariant (I := Consistent A) ?_ ?_ consistent_start
  · rintro s before p after log x s' ps seen hI - hs
    cases p with
    | persisting record =>
      cases x with
      | true =>
        cases hs
        rw [List.append_assoc, List.singleton_append]
        exact hI.persist
      | false =>
        cases hs
        rw [List.append_nil]
        exact hI.fail
    | registering record =>
      cases hs
      rw [List.append_nil]
      exact hI.register
  · intro s running log e s' ps seen hI halone hs
    cases e with
    | pass milliseconds =>
      cases hs
      rw [List.append_nil]
      exact ⟨hI.distinct, hI.isNew, hI.used, hI.idempotent⟩
    | record request id =>
      simp only [AuditService.rules, AuditService.outside] at hs
      split at hs
      · rename_i error herror
        cases hs
        exact hI.reject herror
      · rename_i record hrecord
        cases hs
        obtain ⟨hkey, hunseen⟩ := prepare_ok hrecord
        refine hI.pass hkey hunseen (halone ?_)
        rw [hrecord]
        rfl

/-- **A key is used once**, in every run in which no call passes the checks while another with its
key is under way. -/
theorem idempotent_of_alone (h : Reaches (AuditService.rules A) (Alone A) ⟨.start, [], []⟩ P) :
    Idempotent A P.log :=
  (consistent_of_alone h).idempotent

/-! ### Two calls with one key -/

/-- What a call is about to note was persisted, in every run. -/
theorem used_of_registering {C : Pool AuditService Recording AuditSeen →
    Act Bool AuditOccurrence → Prop} (h : Reaches (AuditService.rules A) C ⟨.start, [], []⟩ P) :
    ∀ p ∈ P.running, ∀ key, p.Notes key → Used key P.log := by
  refine (h.assertions (I := fun _ _ => True)
    (J := fun _ log p => ∀ key, p.Notes key → Used key log) ?_ ?_ trivial nofun).2
  · intro s p log x s' ps seen _ hp hs
    refine ⟨trivial, ?_, fun q hq key hnotes => (hq key hnotes).append seen⟩
    cases p with
    | persisting record =>
      cases x <;> cases hs
      · nofun
      · intro q hq key hnotes
        obtain rfl := List.mem_singleton.mp hq
        exact used_persisted_iff.mpr (.inl hnotes)
    | registering record =>
      cases hs
      nofun
  · intro s log e s' ps seen _ hs
    refine ⟨trivial, ?_, fun q hq key hnotes => (hq key hnotes).append seen⟩
    cases e with
    | pass milliseconds =>
      cases hs
      nofun
    | record request id =>
      simp only [AuditService.rules, AuditService.outside] at hs
      split at hs
      · cases hs
        nofun
      · cases hs
        intro q hq key hnotes
        obtain rfl := List.mem_singleton.mp hq
        exact absurd hnotes not_false

/-- Nothing with a used key may be persisted. -/
theorem not_idempotent_of_used {record : AdminAuditRecord}
    (h : Used record.idempotencyKey log) : ¬ Idempotent A (log ++ [.persisted record]) :=
  fun hidem => hidem log (.persisted record) [] rfl h

/-- A call that is not alone may have its record persisted although its key is used. -/
theorem exists_not_idempotent {a : Act Bool AuditOccurrence} {seen : List AuditSeen}
    (h : Reaches (AuditService.rules A) (fun _ _ => True) ⟨.start, [], []⟩ P)
    (hexec : (AuditService.rules A).exec P a = .ok (P', seen)) (hnot : ¬ Alone A P a) :
    ∃ P'', Reaches (AuditService.rules A) (fun _ _ => True) P' P'' ∧ ¬ Idempotent A P''.log := by
  obtain ⟨s, running, log⟩ := P
  rcases exec_cases hexec with ⟨before, p, after, x, s', ps, rfl, -, -, -⟩ |
    ⟨e, s', ps, rfl, hs, rfl⟩
  · exact absurd trivial hnot
  cases e with
  | pass milliseconds => exact absurd trivial hnot
  | record request id =>
    simp only [Alone, Classical.not_imp, not_forall, not_not] at hnot
    obtain ⟨hok, p, hp, hkey⟩ := hnot
    simp only [AuditService.rules, AuditService.outside] at hs
    split at hs
    · rename_i error herror
      rw [herror] at hok
      cases hok
    rename_i record hrecord
    cases hs
    have hrecordKey := (prepare_ok hrecord).1.trans hkey.symm
    -- First the record of the new call is persisted.
    have hfirst : (AuditService.rules A).exec
        ⟨s, [] ++ .persisting record :: running, log ++ [.called request s.now none]⟩
          (.step 0 true) = .ok (⟨s, [] ++ [.registering record] ++ running,
            log ++ [.called request s.now none] ++ [.persisted record]⟩, _) := exec_middle rfl
    cases p with
    | registering record' =>
      refine ⟨_, .of_exec hfirst trivial, not_idempotent_of_used (.append ?_ _)⟩
      exact used_of_registering h _ hp _ hrecordKey.symm
    | persisting record' =>
      obtain ⟨before, after, rfl⟩ := List.append_of_mem hp
      have hsecond : (AuditService.rules A).exec
          ⟨s, (.registering record :: before) ++ .persisting record' :: after,
            log ++ [.called request s.now none] ++ [.persisted record]⟩
          (.step (before.length + 1) true) = .ok (_, _) := exec_middle rfl
      refine ⟨_, .trans (.of_exec hfirst trivial) (.of_exec hsecond trivial),
        not_idempotent_of_used (used_persisted_iff.mpr (.inl hrecordKey))⟩

/-- A request of an auditor. -/
def sample : AdminAuditRequest :=
  ⟨some ⟨"1", "auditor", none⟩, "export", none, "k", none, none⟩

def onTestnet : AuditSettings := ⟨none, none, id⟩

/-- A call that fails, one that persists its record, and one more. -/
def oneByOne : List (Act Bool AuditOccurrence) :=
  [.outside (.record sample "a"), .step 0 false, .outside (.record sample "b"), .step 0 true,
    .step 0 true, .outside (.record sample "c")]

instance (P : Pool AuditService Recording AuditSeen) : DecidablePred (Alone A P)
  | .outside (.record request id) =>
    @instDecidableForall _ _ (instDecidableEqBool _ true) (List.decidableBAll _ P.running)
  | .outside (.pass _) => instDecidableTrue
  | .step _ _ => instDecidableTrue

theorem idempotent_of_alone_oneByOne :
    ∃ P, (AuditService.rules onTestnet).run ⟨.start, [], []⟩ oneByOne = some P ∧
      Idempotent onTestnet P.log := by
  have hsome : ((AuditService.rules onTestnet).run ⟨.start, [], []⟩ oneByOne).isSome := by
    decide +kernel
  obtain ⟨P, hP⟩ := Option.isSome_iff_exists.mp hsome
  exact ⟨P, hP, idempotent_of_alone (reaches_of_run hP (by decide +kernel))⟩

/-- The two calls come before either record is persisted. -/
theorem not_idempotent_together :
    ¬ ∀ A P, Reaches (AuditService.rules A) (fun _ _ => True) ⟨.start, [], []⟩ P →
      Idempotent A P.log := by
  intro h
  have hlog : ((AuditService.rules onTestnet).run ⟨.start, [], []⟩
      [.outside (.record sample "a"), .outside (.record sample "b"), .step 0 true,
        .step 1 true]).map (·.log) = some ([.called sample 0 none, .called sample 0 none,
          .persisted ⟨"b", "1", "auditor", "export", none, "testnet", "k", none, 0⟩] ++
          [.persisted ⟨"a", "1", "auditor", "export", none, "testnet", "k", none, 0⟩]) := by
    decide +kernel
  obtain ⟨P, hP, hseen⟩ := Option.map_eq_some_iff.mp hlog
  have hidem := h onTestnet P (reaches_of_run hP (along_of_forall (fun _ _ _ => trivial) _))
  rw [hseen] at hidem
  refine not_idempotent_of_used ?_ hidem
  exact ⟨_, .tail _ (.tail _ (.head _)), rfl⟩

end Swyft.Admin
