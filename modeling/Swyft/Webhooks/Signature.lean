import Swyft.Lib.Hex
import Swyft.Webhooks.Lifecycle

/-!
# Signatures of webhooks

`apps/api/src/webhooks/webhook.types.ts`: who receives a post checks its signature with
`verifyWebhookSignature`. The service signs with the digits of a keyed hash, of which nothing is
assumed but its length.

## Main results

* `verifyWebhookSignature_iff` — the texts that are accepted as a signature
* `webhook_verified` — what is posted is accepted with the secret that the webhook was registered
  with
-/

namespace Swyft.Webhooks

/-- `createHmac('sha256', secret).update(body)`. -/
structure Hmac where
  digest : String → String → List UInt8
  length_digest : ∀ secret body, (digest secret body).length = 32

/-- `digest('hex')`. -/
def Hmac.hex (h : Hmac) (secret body : String) : String :=
  String.ofList (Hex.encode (h.digest secret body))

/-- Workers that sign with a hash. -/
def Hmac.settings (h : Hmac) (maxConsecutiveFails retryAttempts : ℕ) : Settings :=
  ⟨maxConsecutiveFails, retryAttempts, h.hex⟩

/-- `/^[0-9a-fA-F]{64}$/`. -/
def isDigest (signature : String) : Bool :=
  signature.toList.length = 64 && signature.toList.all fun c => (Hex.nibble c).isSome

/-- `verifyWebhookSignature`. Nothing in it throws. -/
def verifyWebhookSignature (h : Hmac) (body signature secret : String) : Bool :=
  if signature = "" ∨ secret = "" then false
  else if !isDigest signature then false
  else
    let expected := h.hex secret body
    let sigBuf := Hex.decode signature.toList
    let expBuf := Hex.decode expected.toList
    if sigBuf.length ≠ expBuf.length then false else sigBuf = expBuf

variable {h : Hmac} {secret body sig : String}

theorem toList_hex : (h.hex secret body).toList = Hex.encode (h.digest secret body) := by
  rw [Hmac.hex, String.toList_ofList]

theorem isDigest_iff : isDigest sig = true ↔
    sig.toList.length = 64 ∧ ∀ c ∈ sig.toList, (Hex.nibble c).isSome := by
  simp [isDigest]

/-- A text that differs from the digits of the hash in the case of letters has their form. -/
theorem isDigest_of_lower (hsig : sig.map Char.toLower = h.hex secret body) :
    isDigest sig = true := by
  have hlist : sig.toList.map Char.toLower = Hex.encode (h.digest secret body) := by
    rw [← String.toList_map, hsig, toList_hex]
  rw [isDigest_iff]
  constructor
  · rw [← List.length_map Char.toLower, hlist, Hex.length_encode, h.length_digest]
  · intro c hc
    rw [← Hex.nibble_toLower]
    exact Hex.isSome_of_mem_encode (hlist ▸ List.mem_map_of_mem hc)

/-- **What is accepted as a signature**: the digits of the hash, with letters in either case, under
a secret that is not empty. -/
theorem verifyWebhookSignature_iff : verifyWebhookSignature h body sig secret = true ↔
    secret ≠ "" ∧ sig.map Char.toLower = h.hex secret body := by
  have hdecode : isDigest sig = true → (Hex.decode sig.toList = h.digest secret body ↔
      sig.map Char.toLower = h.hex secret body) := by
    intro hdigest
    obtain ⟨hlength, hdigits⟩ := isDigest_iff.mp hdigest
    rw [Hex.decode_eq_iff (by omega) hdigits, ← toList_hex, ← String.toList_map,
      String.toList_inj]
  simp only [verifyWebhookSignature, toList_hex, Hex.decode_encode]
  constructor
  · intro hverify
    split at hverify
    case isTrue => cases hverify
    case isFalse hnone =>
      split at hverify
      case isTrue => cases hverify
      case isFalse hdigest =>
        have hdigest : isDigest sig = true := by simpa using hdigest
        split at hverify
        case isTrue => cases hverify
        case isFalse =>
          exact ⟨fun hsecret => hnone (.inr hsecret),
            (hdecode hdigest).mp (of_decide_eq_true hverify)⟩
  · rintro ⟨hsecret, hsig⟩
    have hdigest := isDigest_of_lower hsig
    have heq := (hdecode hdigest).mpr hsig
    have hsome : sig ≠ "" := by
      rintro rfl
      cases (isDigest_iff.mp hdigest).1
    simp [hsome, hsecret, hdigest, heq]

/-- The digits of the hash have small letters. -/
theorem map_toLower_hex : (h.hex secret body).map Char.toLower = h.hex secret body := by
  rw [← String.toList_inj, String.toList_map, toList_hex, Hex.map_toLower_encode]

/-! ### What is posted -/

open Interleaving

/-- A post as who receives it finds it: unsigned if the webhook has no secret, and signed with a
text that is accepted with the secret otherwise. But for the case of letters no other text is. -/
def Accepted (h : Hmac) (r : Registration) (body : String) : Option String → Prop
  | none => ∀ secret ∈ r.secret, secret = ""
  | some sig => ∃ secret ∈ r.secret, verifyWebhookSignature h body sig secret = true ∧
      ∀ text, verifyWebhookSignature h body text secret = true ↔ text.map Char.toLower = sig

theorem accepted_signature {max retry : ℕ} (r : Registration) (body : String) :
    Accepted h r body (signature (h.settings max retry) r.webhook body) := by
  rcases hs : r.secret with _ | secret
  · simp [signature, Registration.webhook, hs, Accepted]
  · by_cases hempty : secret = ""
    · simp [signature, Registration.webhook, hs, hempty, Accepted]
    · have hsig : signature (h.settings max retry) r.webhook body = some (h.hex secret body) := by
        simp [signature, Registration.webhook, hs, hempty, Hmac.settings]
      rw [hsig]
      refine ⟨secret, hs, verifyWebhookSignature_iff.mpr ⟨hempty, map_toLower_hex⟩, fun text => ?_⟩
      rw [verifyWebhookSignature_iff]
      exact and_iff_right hempty

/-- **Every post is accepted** by a receiver that knows the secret its webhook was registered with,
in whatever order the calls of the service come. -/
theorem webhook_verified {max retry : ℕ} {P : Pool Registry Request Seen}
    (hP : Reachable (h.settings max retry) P) {id url : String} {sig : Option String}
    (hpost : .delivery (.posted id url body sig) ∈ P.log) :
    ∃ r, .created id r ∈ P.log ∧ url = r.url ∧ Accepted h r body sig := by
  obtain ⟨pre, post, hlog⟩ := List.append_of_mem hpost
  obtain ⟨r, hr, hurl, rfl⟩ := (attributed hP).warranted pre _ post hlog
  exact ⟨r, hlog ▸ List.mem_append_left _ hr, hurl, accepted_signature r body⟩

/-- A hash that is made of the first characters. -/
def firstChars : Hmac :=
  ⟨fun secret body =>
    ((secret ++ body).toList.map (fun c : Char => UInt8.ofNat c.toNat) ++
      List.replicate 32 0).take 32,
    fun secret body => by simp; omega⟩

theorem webhook_verified_test : ∃ (P : Pool Registry Request Seen) (sig : String),
    .delivery (.posted "w" "https://example" "\x7b\x7d" (some sig)) ∈ P.log ∧
    ∃ r, .created "w" r ∈ P.log ∧ "https://example" = r.url ∧
      Accepted firstChars r "\x7b\x7d" (some sig) := by
  have hrun : ((registry (firstChars.settings 10 3)).run ⟨.empty, [], []⟩ comeAndGone).map (fun P =>
      decide (.delivery (.posted "w" "https://example" "\x7b\x7d"
        (some (firstChars.hex "s" "\x7b\x7d"))) ∈ P.log)) = some true := by decide +kernel
  obtain ⟨P, hP, hpost⟩ := Option.map_eq_some_iff.mp hrun
  have hpost := of_decide_eq_true hpost
  exact ⟨P, _, hpost, webhook_verified
    (reaches_of_run hP (along_of_forall (fun _ _ _ => trivial) _)) hpost⟩

end Swyft.Webhooks
