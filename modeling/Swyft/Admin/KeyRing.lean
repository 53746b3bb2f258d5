import Swyft.JsNumber
import Swyft.Observability
import Swyft.RateLimit.Model

/-!
# The keys of the operators

`apps/api/src/admin/internal-key-ring.ts`, the two guards of `internal-key.guard.ts` that use it,
and the check of `metrics.controller.ts`. A surface is opened by the current key of its ring and,
during a rotation, by the previous one until it expires. A production process refuses to start if a
rotation is set to last more than a week.

A key is compared by its digest. How the digest is computed, and how a text is read as a date, is a
parameter.

## What is deliberately absent

Logs. `PoolInitGuard`, which calls a function that its file does not import. A network in a body
that is not a text.

## Main results

* `matchKeyRing_eq_ok` — the keys that open a ring
* `previous_expires_of_validate` — what a production process has checked when it starts
-/

namespace Swyft.Admin

open RateLimit (KeySlot Env)

/-- What the key rings use of their platform. -/
structure Platform (δ : Type) where
  /-- `Date.parse`, `none` for `NaN`. -/
  parseDate : String → Option ℤ
  /-- SHA-256. -/
  digest : String → δ

/-! ### Rings -/

inductive KeyRingName where
  | internalApiKey | feeCollectorAuth | testnetRedeployAuth
  deriving DecidableEq

def KeyRingName.text : KeyRingName → String
  | internalApiKey => "INTERNAL_API_KEY"
  | feeCollectorAuth => "FEE_COLLECTOR_AUTH"
  | testnetRedeployAuth => "TESTNET_REDEPLOY_AUTH"

inductive KeyRingDenial where
  | notConfigured | missing | invalid | previousExpired
  deriving DecidableEq

inductive KeyRingMatch where
  | ok (slot : KeySlot)
  | denied (reason : KeyRingDenial)
  deriving DecidableEq

structure KeyRing where
  name : KeyRingName
  current : Option String
  previous : Option String
  /-- In milliseconds of the epoch. -/
  previousExpiresAt : Option ℤ
  deriving DecidableEq

/-- `MAX_ROTATION_WINDOW_MS`. -/
def maxRotationWindowMs : ℤ := 7 * 24 * 60 * 60 * 1000

/-- `PLACEHOLDER_INTERNAL_API_KEY`. -/
def placeholderInternalApiKey : String := "change-me-in-production"

/-- `nonEmpty`. -/
def nonEmpty (value : Option String) : Option String := value.filter (· ≠ "")

variable {δ : Type} [DecidableEq δ] (platform : Platform δ)

/-- `loadKeyRing`. -/
def loadKeyRing (name : KeyRingName) (env : Env) : KeyRing where
  name
  current := nonEmpty (env name.text)
  previous := nonEmpty (env (name.text ++ "_PREVIOUS"))
  previousExpiresAt :=
    (nonEmpty (env (name.text ++ "_PREVIOUS_EXPIRES_AT"))).bind platform.parseDate

/-- `matchKeyRing`. -/
def matchKeyRing (presented : Option String) (ring : KeyRing) (now : ℕ) : KeyRingMatch :=
  match nonEmpty ring.current, nonEmpty presented with
  | none, _ => .denied .notConfigured
  | some _, none => .denied .missing
  | some current, some presented =>
    let presentedDigest := platform.digest presented
    let currentMatch := presentedDigest = platform.digest current
    let previousMatch :=
      presentedDigest = platform.digest (ring.previous.getD (current ++ "\u0000"))
    if currentMatch then .ok .current
    else if (nonEmpty ring.previous).isSome ∧ previousMatch then
      if ring.previousExpiresAt.any fun expiresAt => (now : ℤ) < expiresAt then .ok .previous
      else .denied .previousExpired
    else .denied .invalid

/-- `keyRingConfigProblems`. -/
def keyRingConfigProblems (ring : KeyRing) (env : Env) (now : ℕ) : List String :=
  let name := ring.name.text
  let expiresRaw := nonEmpty (env (name ++ "_PREVIOUS_EXPIRES_AT"))
  match nonEmpty ring.previous with
  | some previous =>
    (if (nonEmpty ring.current).isNone then [name ++ "_PREVIOUS is set but " ++ name ++ " is not"]
      else []) ++
    (if ring.current = some previous then [name ++ "_PREVIOUS must differ from " ++ name]
      else []) ++
    (if previous = placeholderInternalApiKey then
      [name ++ "_PREVIOUS must not be the placeholder value"] else []) ++
    match ring.previousExpiresAt with
    | none => [name ++ "_PREVIOUS_EXPIRES_AT must be a valid ISO-8601 timestamp"]
    | some expiresAt =>
      if maxRotationWindowMs < expiresAt - now then
        [name ++ "_PREVIOUS_EXPIRES_AT must be within 7 days of boot"]
      else []
  | none =>
    if expiresRaw.isSome then
      [name ++ "_PREVIOUS_EXPIRES_AT is set but " ++ name ++ "_PREVIOUS is not"]
    else []

/-- `validateInternalApiKeyConfig`: the text it stops the process with, if any. -/
def validateInternalApiKeyConfig (env : Env) (now : ℕ) : Except String Unit :=
  if env "NODE_ENV" = some "production" then
    match nonEmpty (env "INTERNAL_API_KEY") with
    | none => .error unset
    | some key =>
      if key = placeholderInternalApiKey then .error unset
      else
        let problems := [.internalApiKey, .feeCollectorAuth, .testnetRedeployAuth].flatMap
          fun name => keyRingConfigProblems (loadKeyRing platform name env) env now
        if problems ≠ [] then
          .error ("Production startup failed: invalid key rotation config: " ++
            String.intercalate "; " problems)
        else .ok ()
  else .ok ()
where
  unset := "Production startup failed: INTERNAL_API_KEY must be set to a non-default value. " ++
    "It protects /admin, indexer replay, and /metrics endpoints."

/-! ### What opens a ring -/

variable {platform} {env : Env} {now : ℕ} {ring : KeyRing} {presented : Option String}

theorem nonEmpty_eq_some {value : Option String} {text : String} :
    nonEmpty value = some text ↔ value = some text ∧ text ≠ "" := by
  rw [nonEmpty, Option.filter_eq_some_iff, decide_eq_true_iff]

/-- The key presented is, as far as digests tell, the text in the slot. -/
def Presents (platform : Platform δ) (presented slot : Option String) : Prop :=
  ∃ key text, nonEmpty presented = some key ∧ nonEmpty slot = some text ∧
    platform.digest key = platform.digest text

omit [DecidableEq δ] in
theorem presents_iff {slot : Option String} {key : String} (h : nonEmpty presented = some key) :
    Presents platform presented slot ↔
      ∃ text, nonEmpty slot = some text ∧ platform.digest key = platform.digest text := by
  constructor
  · rintro ⟨key', text, hkey, htext, hdigest⟩
    obtain rfl : key' = key := Option.some.inj (hkey.symm.trans h)
    exact ⟨text, htext, hdigest⟩
  · rintro ⟨text, htext, hdigest⟩
    exact ⟨key, text, h, htext, hdigest⟩

/-- **What opens a ring.** -/
theorem matchKeyRing_eq_ok {slot : KeySlot} :
    matchKeyRing platform presented ring now = .ok slot ↔
      (nonEmpty ring.current).isSome ∧
        ((slot = .current ∧ Presents platform presented ring.current) ∨
          (slot = .previous ∧ ¬ Presents platform presented ring.current ∧
            Presents platform presented ring.previous ∧
            ∃ expiresAt, ring.previousExpiresAt = some expiresAt ∧ (now : ℤ) < expiresAt)) := by
  rw [matchKeyRing]
  rcases hcurrent : nonEmpty ring.current with _ | current
  · simp
  rcases hpresented : nonEmpty presented with _ | key
  · simp [Presents, hpresented]
  have hcur : Presents platform presented ring.current ↔
      platform.digest key = platform.digest current := by
    simp [presents_iff hpresented, hcurrent]
  have hprev : ((nonEmpty ring.previous).isSome ∧ platform.digest key =
      platform.digest (ring.previous.getD (current ++ "\u0000"))) ↔
        Presents platform presented ring.previous := by
    rw [presents_iff hpresented]
    rcases hprevious : nonEmpty ring.previous with _ | previous
    · simp
    · rw [(nonEmpty_eq_some.mp hprevious).1]
      simp
  simp only [hcur, Option.isSome_some, true_and]
  split
  case isTrue hmatch =>
    simp only [KeyRingMatch.ok.injEq, hmatch, and_true, not_true, false_and, and_false, or_false]
    exact eq_comm
  case isFalse hmatch =>
    by_cases hpresents : Presents platform presented ring.previous
    · rw [if_pos (hprev.mpr hpresents)]
      split
      case isTrue hexp =>
        simp only [Option.any_eq_true, decide_eq_true_eq] at hexp
        obtain ⟨expiresAt, hsome, hlt⟩ := hexp
        simp [hmatch, hpresents, hsome, hlt, eq_comm]
      case isFalse hexp =>
        simp only [Option.any_eq_true, decide_eq_true_eq, not_exists, not_and] at hexp
        simp only [reduceCtorEq, hmatch, and_false, false_or, false_iff, not_and, not_exists]
        exact fun _ _ _ expiresAt hsome => hexp expiresAt hsome
    · rw [if_neg (mt hprev.mp hpresents)]
      simp [hmatch, hpresents]

omit [DecidableEq δ] in
/-- **What a production process has checked when it starts**: no rotation lasts more than a week. -/
theorem previous_expires_of_validate (hproduction : env "NODE_ENV" = some "production")
    (hvalid : validateInternalApiKeyConfig platform env now = .ok ()) (name : KeyRingName)
    {previous : String} (hprevious : (loadKeyRing platform name env).previous = some previous) :
    (loadKeyRing platform name env).current ≠ some previous ∧
      previous ≠ placeholderInternalApiKey ∧
      ∃ expiresAt, (loadKeyRing platform name env).previousExpiresAt = some expiresAt ∧
        expiresAt ≤ now + maxRotationWindowMs := by
  have hnone : keyRingConfigProblems (loadKeyRing platform name env) env now = [] := by
    rw [validateInternalApiKeyConfig, if_pos hproduction] at hvalid
    split at hvalid
    · cases hvalid
    · split at hvalid
      · cases hvalid
      · dsimp only at hvalid
        split at hvalid
        · cases hvalid
        · rename_i hproblems
          exact List.flatMap_eq_nil_iff.mp (not_not.mp hproblems) name (by cases name <;> decide)
  have hnonEmpty : nonEmpty (loadKeyRing platform name env).previous = some previous := by
    rw [nonEmpty_eq_some]
    exact ⟨hprevious, (nonEmpty_eq_some.mp hprevious).2⟩
  simp only [keyRingConfigProblems, hnonEmpty, List.append_eq_nil_iff] at hnone
  obtain ⟨⟨⟨-, hdiffers⟩, hplaceholder⟩, hexpires⟩ := hnone
  refine ⟨?_, ?_, ?_⟩
  · intro hsame
    rw [if_pos hsame] at hdiffers
    cases hdiffers
  · intro hsame
    rw [if_pos hsame] at hplaceholder
    cases hplaceholder
  · split at hexpires
    · cases hexpires
    · rename_i expiresAt hexpiresAt
      refine ⟨expiresAt, hexpiresAt, ?_⟩
      by_contra hlate
      rw [if_pos (by omega)] at hexpires
      cases hexpires

/-! ### Surfaces -/

inductive InternalKeySurface where
  | feeCollector | testnetRedeploy | metrics | dlqReplay
  deriving DecidableEq

/-- `OutcomeLabel`: a surface, and the slot that matched or the reason that none did. -/
abbrev OutcomeLabel := InternalKeySurface × (KeySlot ⊕ KeyRingDenial)

/-- `SURFACES`. -/
def surfaces : List InternalKeySurface := [.feeCollector, .testnetRedeploy, .metrics, .dlqReplay]

/-- `OUTCOMES`. -/
def outcomes : List (KeySlot ⊕ KeyRingDenial) :=
  [.inl .current, .inl .previous, .inr .notConfigured, .inr .missing, .inr .invalid,
    .inr .previousExpired]

/-- `internalKeyAuthOutcomes`, before any request. -/
def internalKeyAuthOutcomes : BoundedCounter OutcomeLabel :=
  .fresh (surfaces.flatMap fun s => outcomes.map (s, ·))

/-- The last part of a label. -/
def KeyRingMatch.label : KeyRingMatch → KeySlot ⊕ KeyRingDenial
  | ok slot => .inl slot
  | denied reason => .inr reason

/-- `recordKeyRingOutcome`. -/
def recordKeyRingOutcome (surface : InternalKeySurface) (found : KeyRingMatch)
    (counter : BoundedCounter OutcomeLabel) : BoundedCounter OutcomeLabel :=
  counter.inc (surface, found.label)

/-- What is read of a request. -/
structure AdminRequest where
  /-- A header, if it was sent. -/
  header : String → Option String
  /-- `req.body?.network`. -/
  bodyNetwork : Option String
  /-- `randomUUID()`. -/
  uuid : String

/-- The id that the answers to a request carry. -/
def AdminRequest.correlationId (req : AdminRequest) : String :=
  resolveCorrelationId (req.header "x-correlation-id") (req.header "x-request-id") req.uuid

/-- What a request that is refused is answered. -/
structure Denial where
  status : ℕ
  code : Option String
  message : String
  correlationId : Option String
  retryAfterMs : Option ℕ
  deriving DecidableEq

/-- An answer with a code. -/
def AdminRequest.deny (req : AdminRequest) (status : ℕ) (code message : String) : Denial :=
  ⟨status, some code, message, some req.correlationId, none⟩

/-- `Number(expiresAt)` is no time that is yet to come. -/
def lapsed (expiresAt : String) (now : ℕ) : Bool :=
  match Js.toNumber expiresAt with
  | .finite ts => ts ≤ now
  | _ => true

/-- The words of a guard: what it answers, and the headers of a token with a scope. -/
structure Scope where
  denials : KeyRingDenial → String × String
  roleHeader : String
  role : String
  wrongRole : String × String
  expiryHeader : String
  expired : String × String

/-- The part of a guard after the key: the headers of a token with a scope, where they are sent and
are not empty. -/
def checkScope (scope : Scope) (req : AdminRequest) (now : ℕ) : Except Denial Unit :=
  if (nonEmpty (req.header scope.roleHeader)).any (· ≠ scope.role) then
    .error (req.deny 403 scope.wrongRole.1 scope.wrongRole.2)
  else if (nonEmpty (req.header scope.expiryHeader)).any (lapsed · now) then
    .error (req.deny 401 scope.expired.1 scope.expired.2)
  else .ok ()

/-- A guard with a ring: the key is matched and counted, and then the scope is checked. -/
def checkKeyRing (platform : Platform δ) (scope : Scope) (surface : InternalKeySurface)
    (ring : KeyRing) (req : AdminRequest) (now : ℕ) (counter : BoundedCounter OutcomeLabel) :
    BoundedCounter OutcomeLabel × Except Denial Unit :=
  let found := matchKeyRing platform (req.header "x-internal-key") ring now
  (recordKeyRingOutcome surface found counter,
    match found with
    | .denied reason =>
      .error (req.deny 401 (scope.denials reason).1 (scope.denials reason).2)
    | .ok _ => checkScope scope req now)

/-- The words of `InternalKeyGuard`. -/
def feeCollectorScope : Scope where
  denials
    | .notConfigured =>
      ("FEE_COLLECTOR_AUTH_NOT_CONFIGURED", "Fee collector auth is not configured")
    | .missing => ("FEE_COLLECTOR_AUTH_MISSING_KEY", "Missing fee collector credentials")
    | .invalid => ("FEE_COLLECTOR_AUTH_INVALID_KEY", "Invalid fee collector credentials")
    | .previousExpired => ("FEE_COLLECTOR_AUTH_EXPIRED", "Fee collector credentials expired")
  roleHeader := "x-fee-collector-role"
  role := "fee-collector"
  wrongRole := ("FEE_COLLECTOR_AUTH_WRONG_ROLE", "Caller lacks fee-collector role")
  expiryHeader := "x-fee-collector-expires-at"
  expired := ("FEE_COLLECTOR_AUTH_EXPIRED", "Fee collector credentials expired")

/-- The words of `TestnetRedeployGuard`. -/
def testnetRedeployScope : Scope where
  denials
    | .notConfigured =>
      ("TESTNET_REDEPLOY_AUTH_NOT_CONFIGURED", "Testnet redeploy auth is not configured")
    | .missing => ("TESTNET_REDEPLOY_AUTH_MISSING_KEY", "Missing testnet redeploy credentials")
    | .invalid => ("TESTNET_REDEPLOY_AUTH_INVALID_KEY", "Invalid testnet redeploy credentials")
    | .previousExpired => ("TESTNET_REDEPLOY_AUTH_EXPIRED", "Testnet redeploy credentials expired")
  roleHeader := "x-testnet-redeploy-role"
  role := "testnet-redeployer"
  wrongRole := ("TESTNET_REDEPLOY_AUTH_WRONG_ROLE", "Caller lacks testnet-redeployer role")
  expiryHeader := "x-testnet-redeploy-expires-at"
  expired := ("TESTNET_REDEPLOY_AUTH_EXPIRED", "Testnet redeploy credentials expired")

/-- The ring of `InternalKeyGuard`: its own wherever it is set, even to nothing. -/
def feeCollectorRing (env : Env) : KeyRingName :=
  if (env "FEE_COLLECTOR_AUTH").isSome then .feeCollectorAuth else .internalApiKey

/-- `InternalKeyGuard.canActivate`. -/
def internalKeyGuard (platform : Platform δ) (env : Env) (req : AdminRequest) (now : ℕ)
    (counter : BoundedCounter OutcomeLabel) : BoundedCounter OutcomeLabel × Except Denial Unit :=
  checkKeyRing platform feeCollectorScope .feeCollector
    (loadKeyRing platform (feeCollectorRing env) env) req now counter

/-- `TestnetRedeployGuard.canActivate`. -/
def testnetRedeployGuard (platform : Platform δ) (env : Env) (req : AdminRequest) (now : ℕ)
    (counter : BoundedCounter OutcomeLabel) : BoundedCounter OutcomeLabel × Except Denial Unit :=
  if (nonEmpty ((req.header "x-stellar-network").or req.bodyNetwork)).any (· ≠ "testnet") then
    (counter, .error (req.deny 403 "TESTNET_REDEPLOY_AUTH_MAINNET_FORBIDDEN"
      "Wasm-hash redeploy is restricted to testnet"))
  else
    checkKeyRing platform testnetRedeployScope .testnetRedeploy
      (loadKeyRing platform .testnetRedeployAuth env) req now counter

/-- `MetricsController.assertInternalKey`. -/
def assertInternalKey (platform : Platform δ) (env : Env) (req : AdminRequest) (now : ℕ)
    (counter : BoundedCounter OutcomeLabel) : BoundedCounter OutcomeLabel × Except Denial Unit :=
  let found := matchKeyRing platform (req.header "x-internal-key")
    (loadKeyRing platform .internalApiKey env) now
  (recordKeyRingOutcome .metrics found counter,
    match found with
    | .denied _ => .error ⟨401, none, "Unauthorized", none, none⟩
    | .ok _ => .ok ())

/-- Who a guard with a ring lets pass has a key that opens it. -/
theorem exists_match_of_checkKeyRing {scope : Scope} {surface : InternalKeySurface}
    {req : AdminRequest} {counter : BoundedCounter OutcomeLabel}
    (h : (checkKeyRing platform scope surface ring req now counter).2 = .ok ()) :
    ∃ slot, matchKeyRing platform (req.header "x-internal-key") ring now = .ok slot := by
  simp only [checkKeyRing] at h
  split at h
  · cases h
  · rename_i slot hfound
    exact ⟨slot, hfound⟩

end Swyft.Admin
