import Swyft.Js
import Mathlib.Algebra.Order.Ring.Rat
import Mathlib.Tactic.NormNum.Ineq

/-!
# Who is admitted with a token

`JwtAuthGuard` of `apps/api/src/auth/jwt-auth.guard.ts`: a request comes with a token, whose claims
say which wallet it is for, which roles and scopes it has and until when it is valid. The signature
is verified by a library, which is the parameter `GuardSettings.verify`.

## What is deliberately absent

Correlation ids and logs. A time is exact. That a principal is attached to the request is what the
guard returns.

## Main results

* `respectsRoles_iff` — the guard lets only the roles of the fee collector through, and lets nobody
  through for claims that are gone, exactly if it does not fall back on the scopes or on `role`
-/

namespace Swyft.Auth.Guard

/-! ### Claims -/

/-- A claim of a token. -/
inductive Claim where
  /-- It is missing, or `null`. -/
  | absent
  | text (value : String)
  /-- An array, of which some entries may be no texts. -/
  | list (entries : List (Option String))
  | other
  deriving DecidableEq

namespace Claim

/-- `a ?? b`. -/
def or : Claim → Claim → Claim
  | absent, b => b
  | a, _ => a

/-- `normalizeList`. -/
def normalizeList : Claim → List String
  | absent | other => []
  | text value => [value].filter (· ≠ "")
  | list entries => (entries.filterMap id).filter (· ≠ "")

/-- A claim is left as it is, or loses entries, or is deleted. -/
inductive Deleted : Claim → Claim → Prop where
  | unchanged (c : Claim) : Deleted c c
  | deleted (c : Claim) : Deleted c absent
  | entries {es es' : List (Option String)} (h : es'.Sublist es) : Deleted (list es) (list es')

end Claim

/-- `JwtPayload`. -/
structure JwtPayload where
  sub : Claim
  walletAddress : Claim
  wallet : Claim
  address : Claim
  role : Claim
  roles : Claim
  scope : Claim
  /-- The claim `exp`, if it is a number. -/
  exp : Option ℚ
  deriving DecidableEq

namespace JwtPayload

/-- The claim that names the wallet. -/
def walletClaim (payload : JwtPayload) : Claim :=
  ((payload.walletAddress.or payload.wallet).or payload.address).or payload.sub

/-- The roles that the guard reads off a token. -/
def roleList (payload : JwtPayload) : List String := (payload.roles.or payload.role).normalizeList

def scopeList (payload : JwtPayload) : List String := payload.scope.normalizeList

/-- The token is valid at a time in milliseconds. -/
def IsCurrent (payload : JwtPayload) (now : ℤ) : Prop := ∃ exp ∈ payload.exp, now < exp * 1000

/-- The token names a wallet. -/
def HasWallet (payload : JwtPayload) : Prop := ∃ w, payload.walletClaim = .text w ∧ w ≠ ""

/-- Of the claims about roles some are deleted, in whole or in part, and nothing else is changed. -/
def RolesDeleted (payload payload' : JwtPayload) : Prop :=
  ∃ roles role, payload.roles.Deleted roles ∧ payload.role.Deleted role ∧
    payload' = { payload with roles, role }

end JwtPayload

/-! ### The guard -/

/-- `AUTH_ERROR_CODES`. -/
inductive AuthErrorCode where
  | missingHeader | missingToken | notConfigured | invalidToken | missingWallet | forbidden
  deriving DecidableEq

def AuthErrorCode.text : AuthErrorCode → String
  | missingHeader => "AUTH_MISSING_HEADER"
  | missingToken => "AUTH_MISSING_TOKEN"
  | notConfigured => "AUTH_NOT_CONFIGURED"
  | invalidToken => "AUTH_INVALID_TOKEN"
  | missingWallet => "AUTH_MISSING_WALLET"
  | forbidden => "AUTH_FORBIDDEN"

/-- `FEE_COLLECTOR_ROLES`. -/
def feeCollectorRoles : List String := ["fee-collector", "admin"]

structure VerifyOptions where
  algorithms : List String
  issuer : Option String
  audience : Option String
  deriving DecidableEq

/-- The variables of the environment, and `verify` of a token, a secret and options; nothing where
it throws. -/
structure GuardSettings where
  jwtSecret : Option String
  jwtIssuer : Option String
  jwtAudience : Option String
  verify : String → String → VerifyOptions → Option JwtPayload

/-- `WalletPrincipal`. -/
structure WalletPrincipal where
  walletAddress : String
  roles : List String
  scopes : List String
  deriving DecidableEq

/-- A variable that is set to a text. -/
def configured (value : Option String) : Option String := value.filter (· ≠ "")

/-- The token of an `authorization` header. -/
def bearerToken (authorization : Option String) : Except AuthErrorCode String :=
  match authorization with
  | none => .error .missingHeader
  | some header =>
    if "Bearer ".toList.isPrefixOf header.toList then
      let token := Js.trim (header.toList.drop "Bearer ".length)
      if token = [] then .error .missingToken else .ok (String.ofList token)
    else .error .missingHeader

/-- What `canActivate` makes of a payload that is verified. -/
def authorize (now : ℤ) (payload : JwtPayload) : Except AuthErrorCode WalletPrincipal :=
  match payload.exp with
  | none => .error .invalidToken
  | some exp =>
    if exp * 1000 ≤ now then .error .invalidToken
    else
      match payload.walletClaim with
      | .text walletAddress =>
        if walletAddress = "" then .error .missingWallet
        else
          let roles := payload.roleList
          let scopes := payload.scopeList
          if roles.length = 0 ∧ scopes.length = 0 then .error .forbidden
          else if 0 < roles.length ∧ ¬ roles.any feeCollectorRoles.contains then .error .forbidden
          else .ok ⟨walletAddress, roles, scopes⟩
      | _ => .error .missingWallet

/-- The payload of a header that is verified. -/
def GuardSettings.verified (G : GuardSettings) (authorization : Option String) :
    Except AuthErrorCode JwtPayload := do
  let token ← bearerToken authorization
  match configured G.jwtSecret with
  | none => .error .notConfigured
  | some secret =>
    match G.verify token secret
      ⟨["HS256"], configured G.jwtIssuer, configured G.jwtAudience⟩ with
    | none => .error .invalidToken
    | some payload => .ok payload

/-- `canActivate`. -/
def canActivate (G : GuardSettings) (now : ℤ) (authorization : Option String) :
    Except AuthErrorCode WalletPrincipal := do
  let payload ← G.verified authorization
  authorize now payload

/-- A request is let through. -/
def Activates (G : GuardSettings) (now : ℤ) (authorization : Option String) : Prop :=
  ∃ principal, canActivate G now authorization = .ok principal

/-- With a payload the guard lets a request through only for a role of the fee collector, and not
for another payload of which that has lost claims about roles. -/
structure RespectsRoles (now : ℤ) (payload : JwtPayload) : Prop where
  privileged : ∀ G authorization, G.verified authorization = .ok payload →
    Activates G now authorization → ∃ role ∈ payload.roleList, role ∈ feeCollectorRoles
  monotone : ∀ G authorization G' authorization' payload',
    G.verified authorization = .ok payload → G'.verified authorization' = .ok payload' →
      payload.RolesDeleted payload' → Activates G' now authorization' →
        Activates G now authorization

/-! ### Who is let through -/

variable {now : ℤ} {payload payload' : JwtPayload} {c c' : Claim}

/-- A token has a role of the fee collector. -/
def Privileged (roles : List String) : Prop := ∃ role ∈ roles, role ∈ feeCollectorRoles

instance : DecidablePred Privileged := fun roles =>
  inferInstanceAs (Decidable (∃ role ∈ roles, role ∈ feeCollectorRoles))

theorem any_contains_iff {roles : List String} :
    roles.any feeCollectorRoles.contains = true ↔ Privileged roles := by
  rw [List.any_eq_true]
  exact exists_congr fun role => and_congr_right fun _ => List.contains_iff_mem

theorem authorize_isOk_iff (hcurrent : payload.IsCurrent now) (hwallet : payload.HasWallet) :
    (∃ principal, authorize now payload = .ok principal) ↔
      Privileged payload.roleList ∨ payload.roleList = [] ∧ payload.scopeList ≠ [] := by
  obtain ⟨exp, hexp, hnow⟩ := hcurrent
  obtain ⟨w, hclaim, hw⟩ := hwallet
  have hauthorize : authorize now payload =
      if payload.roleList.length = 0 ∧ payload.scopeList.length = 0 then .error .forbidden
      else if 0 < payload.roleList.length ∧ ¬ payload.roleList.any feeCollectorRoles.contains then
        .error .forbidden
      else .ok ⟨w, payload.roleList, payload.scopeList⟩ := by
    rw [authorize, Option.mem_def.mp hexp, hclaim]
    simp only [not_le.mpr hnow, hw, if_false]
  simp only [hauthorize, any_contains_iff, List.length_pos_iff, List.length_eq_zero_iff]
  by_cases hroles : payload.roleList = []
  · have hnone : ¬ Privileged payload.roleList := by
      rw [hroles]
      rintro ⟨role, hrole, -⟩
      exact List.not_mem_nil hrole
    by_cases hscopes : payload.scopeList = []
    · simp [hroles, hscopes, Privileged]
    · simp [hroles, hscopes]
  · by_cases hprivileged : Privileged payload.roleList
    · simp [hroles, hprivileged]
    · simp [hroles, hprivileged]

theorem activates_iff {G : GuardSettings} {authorization : Option String}
    (hverified : G.verified authorization = .ok payload) (hcurrent : payload.IsCurrent now)
    (hwallet : payload.HasWallet) :
    Activates G now authorization ↔
      Privileged payload.roleList ∨ payload.roleList = [] ∧ payload.scopeList ≠ [] := by
  rw [Activates, canActivate, hverified]
  exact authorize_isOk_iff hcurrent hwallet

/-- A claim gains nothing when it is deleted. -/
theorem Claim.Deleted.subset (h : c.Deleted c') : c'.normalizeList ⊆ c.normalizeList := by
  cases h with
  | unchanged => exact List.Subset.refl _
  | deleted => exact List.nil_subset _
  | entries hsub => exact ((hsub.filterMap id).filter _).subset

/-- The roles of a token that has lost claims were among those of `roles` or of `role`. -/
theorem JwtPayload.RolesDeleted.mem_roleList (h : payload.RolesDeleted payload') {role : String}
    (hrole : role ∈ payload'.roleList) :
    role ∈ payload.roleList ∨ role ∈ payload.role.normalizeList := by
  obtain ⟨roles', role', hroles, hrole', rfl⟩ := h
  cases roles' with
  | absent => exact .inr (hrole'.subset hrole)
  | text | list | other =>
    left
    have hmem := hroles.subset hrole
    show role ∈ (payload.roles.or payload.role).normalizeList
    cases hclaim : payload.roles with
    | absent =>
      rw [hclaim] at hmem
      exact absurd hmem List.not_mem_nil
    | text | list | other => rwa [hclaim] at hmem

/-- A setting in which every token has one payload. -/
def trusting (payload : JwtPayload) : GuardSettings :=
  ⟨some "secret", none, none, fun _ _ _ => some payload⟩

theorem verified_trusting (payload : JwtPayload) :
    (trusting payload).verified (some "Bearer token") = .ok payload := rfl

/-- **The guard respects roles** exactly if a role of the fee collector is there, or nothing that
the guard would fall back on. -/
theorem respectsRoles_iff (hcurrent : payload.IsCurrent now) (hwallet : payload.HasWallet) :
    RespectsRoles now payload ↔ Privileged payload.roleList ∨
      payload.scopeList = [] ∧ ¬ Privileged payload.role.normalizeList := by
  constructor
  · intro h
    by_cases hprivileged : Privileged payload.roleList
    · exact .inl hprivileged
    right
    -- Nobody who has lost roles is let through.
    have hdenied (roles role : Claim) (hroles : payload.roles.Deleted roles)
        (hrole : payload.role.Deleted role) :
        ¬ Activates (trusting { payload with roles, role }) now (some "Bearer token") := by
      intro hactivates
      refine hprivileged (h.privileged _ _ (verified_trusting payload) ?_)
      exact h.monotone _ _ _ _ _ (verified_trusting payload) (verified_trusting _)
        ⟨roles, role, hroles, hrole, rfl⟩ hactivates
    constructor
    · by_contra hscopes
      refine hdenied .absent .absent (.deleted _) (.deleted _) ?_
      exact (activates_iff (verified_trusting { payload with roles := .absent, role := .absent })
        hcurrent hwallet).mpr (.inr ⟨rfl, hscopes⟩)
    · intro hrole
      refine hdenied .absent payload.role (.deleted _) (.unchanged _) ?_
      exact (activates_iff (verified_trusting { payload with roles := .absent })
        hcurrent hwallet).mpr (.inl hrole)
  · intro h
    refine ⟨fun G authorization hverified hactivates => ?_, ?_⟩
    · rcases (activates_iff hverified hcurrent hwallet).mp hactivates with hrole | ⟨hnone, hscopes⟩
      · exact hrole
      · rcases h with hrole | ⟨hempty, -⟩
        · exact hrole
        · exact absurd hempty hscopes
    · intro G authorization G' authorization' payload' hverified hverified' hdeleted hactivates
      refine (activates_iff hverified hcurrent hwallet).mpr (.inl ?_)
      rcases h with hrole | ⟨hempty, hnone⟩
      · exact hrole
      have hsame : payload'.scopeList = payload.scopeList ∧ payload'.IsCurrent now ∧
          payload'.HasWallet := by
        obtain ⟨roles, role, -, -, rfl⟩ := hdeleted
        exact ⟨rfl, hcurrent, hwallet⟩
      rcases (activates_iff hverified' hsame.2.1 hsame.2.2).mp hactivates with
        ⟨role, hrole, hfee⟩ | ⟨-, hscopes⟩
      · rcases hdeleted.mem_roleList hrole with hmem | hmem
        · exact ⟨role, hmem, hfee⟩
        · exact absurd ⟨role, hmem, hfee⟩ hnone
      · exact absurd (hsame.1.trans hempty) hscopes

/-! ### A token with a scope alone -/

/-- A token that is valid until the second `100` and has no claims about roles. -/
def withScope (scope : Claim) : JwtPayload :=
  ⟨.absent, .text "G", .absent, .absent, .absent, .absent, scope, some 100⟩

theorem respectsRoles_iff_walletOnly : RespectsRoles 0 (withScope .absent) :=
  (respectsRoles_iff ⟨100, rfl, by norm_num⟩ ⟨"G", rfl, by decide⟩).mpr
    (.inr ⟨rfl, by decide⟩)

/-- A token with a scope needs no role. -/
theorem not_respectsRoles_withScope :
    ¬ ∀ (now : ℤ) (payload : JwtPayload), payload.IsCurrent now → payload.HasWallet →
      RespectsRoles now payload := by
  intro h
  have hrespects := h 0 (withScope (.text "read")) ⟨100, rfl, by norm_num⟩ ⟨"G", rfl, by decide⟩
  have hactivates : Activates (trusting (withScope (.text "read"))) 0 (some "Bearer token") :=
    (activates_iff (verified_trusting _) ⟨100, rfl, by norm_num⟩ ⟨"G", rfl, by decide⟩).mpr
      (.inr ⟨rfl, by decide⟩)
  obtain ⟨role, hrole, -⟩ := hrespects.privileged _ _ (verified_trusting _) hactivates
  exact absurd hrole List.not_mem_nil

end Swyft.Auth.Guard
