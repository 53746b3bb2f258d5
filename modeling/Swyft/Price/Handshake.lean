import Swyft.Js
import Swyft.Observability

/-!
# Who may open a price socket

`apps/api/src/price/ws-auth-policy.ts`: the policy that the environment sets for the `/price`
socket, and what a handshake is answered under it. A wallet is authenticated by a token in the
address of the handshake, whose signature a library verifies; without a token a client is anonymous,
where the policy has it.

## What is deliberately absent

Limits beyond the range in which numbers are exact.

## Main results

* `optional_resolveWsAuthPolicy` — what an operator must have set for anonymous clients
* `wallet_of_authenticate`, `anonymous_of_authenticate` — who is authenticated
-/

namespace Swyft.Price

/-- The variables of the environment. -/
abbrev Env := String → Option String

/-! ### The policy -/

inductive WsPoolUpdatesAuthMode where
  | required | optional
  deriving DecidableEq

/-- Why the mode that is set was refused. -/
inductive DowngradeReason where
  | invalidMode | mainnetNotEnabled
  deriving DecidableEq

structure WsAuthPolicy where
  mode : WsPoolUpdatesAuthMode
  maxSubscriptions : ℕ
  anonymousMaxSubscriptions : ℕ
  downgradeReason : Option DowngradeReason
  deriving DecidableEq

/-- `positiveInt`. -/
def positiveInt (raw : Option String) (fallback : ℕ) : ℕ :=
  match Js.parseInt10 (raw.getD "") with
  | some parsed => if 0 < parsed then parsed.toNat else fallback
  | none => fallback

/-- `text.trim().toLowerCase()`, to be compared with words of ASCII letters other than `k`. -/
def normalizeWord (text : String) : String :=
  String.ofList ((Js.trim text.toList).map Char.toLower)

/-- `resolveWsAuthPolicy`. -/
def resolveWsAuthPolicy (env : Env) : WsAuthPolicy :=
  let maxSubscriptions := positiveInt (env "PRICE_WS_MAX_SUBSCRIPTIONS_PER_CLIENT") 50
  let anonymousMaxSubscriptions :=
    min (positiveInt (env "WS_POOL_UPDATES_ANON_MAX_SUBSCRIPTIONS") 10) maxSubscriptions
  let raw := normalizeWord ((env "WS_POOL_UPDATES_AUTH_MODE").getD "required")
  if raw ≠ "required" ∧ raw ≠ "optional" then
    ⟨.required, maxSubscriptions, anonymousMaxSubscriptions, some .invalidMode⟩
  else if raw = "optional" ∧ env "STELLAR_NETWORK" = some "mainnet" ∧
      env "WS_POOL_UPDATES_ANON_MAINNET_ENABLED" ≠ some "true" then
    ⟨.required, maxSubscriptions, anonymousMaxSubscriptions, some .mainnetNotEnabled⟩
  else
    ⟨if raw = "optional" then .optional else .required, maxSubscriptions,
      anonymousMaxSubscriptions, none⟩

/-- The operator has opted in to anonymous clients, on mainnet a second time. -/
def OptsIn (env : Env) : Prop :=
  normalizeWord ((env "WS_POOL_UPDATES_AUTH_MODE").getD "required") = "optional" ∧
    (env "STELLAR_NETWORK" = some "mainnet" →
      env "WS_POOL_UPDATES_ANON_MAINNET_ENABLED" = some "true")

theorem optional_resolveWsAuthPolicy {env : Env} :
    (resolveWsAuthPolicy env).mode = .optional ↔ OptsIn env := by
  simp only [resolveWsAuthPolicy, OptsIn]
  generalize normalizeWord _ = raw
  split
  · rename_i hraw
    exact iff_of_false nofun fun h => hraw.2 h.1
  · split
    · rename_i hmainnet
      exact iff_of_false nofun fun h => hmainnet.2.2 (h.2 hmainnet.2.1)
    · rename_i hmainnet
      constructor
      · intro hmode
        have hraw : raw = "optional" := by
          by_contra hne
          rw [if_neg hne] at hmode
          cases hmode
        exact ⟨hraw, fun hnet => not_not.mp fun hflag => hmainnet ⟨hraw, hnet, hflag⟩⟩
      · rintro ⟨hraw, -⟩
        exact if_pos hraw

/-- Anonymous clients never get more than authenticated ones. -/
theorem anonymousMax_le (env : Env) : (resolveWsAuthPolicy env).anonymousMaxSubscriptions ≤
    (resolveWsAuthPolicy env).maxSubscriptions := by
  simp only [resolveWsAuthPolicy]
  split
  · exact Nat.min_le_right ..
  · split <;> exact Nat.min_le_right ..

/-! ### Handshakes -/

inductive WsErrorCode where
  | authRequired | authInvalid | authExpired | forbidden | invalidRequest | subscriptionLimit
  deriving DecidableEq

/-- `WS_ERROR_CODES`. -/
def WsErrorCode.text : WsErrorCode → String
  | authRequired => "WS_AUTH_REQUIRED"
  | authInvalid => "WS_AUTH_INVALID"
  | authExpired => "WS_AUTH_EXPIRED"
  | forbidden => "WS_FORBIDDEN"
  | invalidRequest => "WS_INVALID_REQUEST"
  | subscriptionLimit => "WS_SUBSCRIPTION_LIMIT"

inductive WsPrincipal where
  | wallet (walletAddress : String)
  | anonymous
  deriving DecidableEq

/-- The claims of a token, each if it is a text. -/
structure JwtPayload where
  sub : Option String
  walletAddress : Option String
  wallet : Option String
  address : Option String
  deriving DecidableEq

/-- `walletFrom`. -/
def walletFrom (payload : JwtPayload) : Option String :=
  [payload.walletAddress, payload.wallet, payload.address, payload.sub].filterMap id
    |>.find? (· ≠ "")

/-- What `verify` throws. -/
inductive JwtFailure where
  | expired | invalid
  deriving DecidableEq

/-- `verify` of a token, a secret, an issuer and an audience: the payload, if it is an object. -/
abbrev Verify :=
  String → String → Option String → Option String → Except JwtFailure (Option JwtPayload)

/-- What is read of the request of a handshake. -/
structure Handshake where
  /-- The parameter `token` of the address, if the address can be parsed. -/
  token : Option (Option String)
  /-- `x-correlation-id` and `x-request-id`, each if it is one text. -/
  correlationHeader : Option String
  requestHeader : Option String
  /-- `randomUUID()`. -/
  uuid : String
  deriving DecidableEq

/-- The id that the answers to a handshake carry. -/
def Handshake.correlationId (request : Handshake) : String :=
  resolveCorrelationId request.correlationHeader request.requestHeader request.uuid

/-- A variable that is set to a text. -/
def configured (value : Option String) : Option String := value.filter (· ≠ "")

/-- `authenticateWsHandshake`, without the correlation id that stands in every answer. -/
def authenticateWsHandshake (verify : Verify) (env : Env) (policy : WsAuthPolicy)
    (request : Handshake) : Except (WsErrorCode × String) WsPrincipal :=
  match request.token with
  | none => .error (.invalidRequest, "Malformed handshake URL")
  | some token =>
    match configured token with
    | none =>
      match policy.mode with
      | .optional => .ok .anonymous
      | .required => .error (.authRequired, "Unauthorized: missing token")
    | some token =>
      match configured (env "JWT_SECRET") with
      | none => .error (.authInvalid, "Unauthorized: invalid token")
      | some secret =>
        match verify token secret (configured (env "JWT_ISSUER"))
            (configured (env "JWT_AUDIENCE")) with
        | .error .expired => .error (.authExpired, "Unauthorized: token expired")
        | .error .invalid => .error (.authInvalid, "Unauthorized: invalid token")
        | .ok payload =>
          match payload.bind walletFrom with
          | none => .error (.authInvalid, "Unauthorized: invalid token")
          | some walletAddress => .ok (.wallet walletAddress)

variable {verify : Verify} {env : Env} {policy : WsAuthPolicy} {request : Handshake}

/-- The handshake presents a token that was signed with the secret and names the wallet. -/
def Proves (verify : Verify) (env : Env) (request : Handshake) (walletAddress : String) : Prop :=
  ∃ token secret payload, request.token = some (some token) ∧ token ≠ "" ∧
    env "JWT_SECRET" = some secret ∧ secret ≠ "" ∧
    verify token secret (configured (env "JWT_ISSUER")) (configured (env "JWT_AUDIENCE")) =
      .ok (some payload) ∧
    walletFrom payload = some walletAddress

theorem configured_eq_some {value : Option String} {text : String} :
    configured value = some text ↔ value = some text ∧ text ≠ "" := by
  rw [configured, Option.filter_eq_some_iff, decide_eq_true_iff]

/-- A wallet has proved itself. -/
theorem wallet_of_authenticate {walletAddress : String}
    (h : authenticateWsHandshake verify env policy request = .ok (.wallet walletAddress)) :
    Proves verify env request walletAddress := by
  unfold authenticateWsHandshake at h
  split at h
  · cases h
  · rename_i token htoken
    split at h
    · split at h <;> cases h
    · rename_i text htext
      split at h
      · cases h
      · rename_i secret hsecret
        split at h
        · cases h
        · cases h
        · rename_i payload hverify
          split at h
          · cases h
          · rename_i wallet hwallet
            cases h
            obtain ⟨payload, rfl, hwallet⟩ := Option.bind_eq_some_iff.mp hwallet
            obtain ⟨rfl, hne⟩ := configured_eq_some.mp htext
            obtain ⟨hsecret, hsecretNe⟩ := configured_eq_some.mp hsecret
            exact ⟨text, secret, payload, htoken, hne, hsecret, hsecretNe, hverify, hwallet⟩

/-- An anonymous client presented no token, and the policy has anonymous clients. -/
theorem anonymous_of_authenticate
    (h : authenticateWsHandshake verify env policy request = .ok .anonymous) :
    policy.mode = .optional ∧ ∃ token, request.token = some token ∧ configured token = none := by
  unfold authenticateWsHandshake at h
  split at h
  · cases h
  · rename_i token htoken
    split at h
    · rename_i hnone
      split at h
      · rename_i hmode
        exact ⟨hmode, token, htoken, hnone⟩
      · cases h
    · split at h
      · cases h
      · split at h
        · cases h
        · cases h
        · split at h <;> cases h

end Swyft.Price
