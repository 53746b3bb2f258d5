import Swyft.Js
import Swyft.Lib.Interleaving
import Mathlib.Logic.Function.Basic

/-!
# Signing in with a wallet

`apps/api/src/auth/auth.service.ts` and `nonce.controller.ts`: a wallet asks for a nonce, signs it
and hands the signature in for an access token. Nonces and counters of failed attempts are kept in
Redis, and a request is a sequence of Redis commands, each atomic. Between two commands of a
request any other request may run, a nonce may be issued and a key may expire.

Public keys, the decoding of base64 and the verification of signatures are the libraries'. They
are the parameter `SignatureScheme`.

## What is deliberately absent

Time: a key with a time to live may vanish at any moment, and the time it has left is whatever
Redis replies. Correlation ids and logs are left out, as are the texts of a request beyond the
three that are read. A command that fails does nothing.
-/

namespace Swyft.Auth

open Interleaving

/-! ### Redis -/

inductive Value where
  | text (s : String)
  | number (n : ℤ)
  deriving DecidableEq

/-- The text a key with this value is read as. -/
def Value.read : Value → String
  | .text s => s
  | .number n => toString n

/-- The number a key with this value is counted from. -/
def Value.number? : Value → Option ℤ
  | .text s => s.toInt?
  | .number n => some n

/-- A value, and whether it has a time to live. -/
structure Entry where
  value : Value
  volatile : Bool
  deriving DecidableEq

/-- The keys of the store. -/
structure Redis where
  entries : String → Option Entry

namespace Redis

def empty : Redis := ⟨fun _ => none⟩

/-- `GET`. -/
def get (r : Redis) (key : String) : Option String := (r.entries key).map fun e => e.value.read

/-- `SET` with `EX`. -/
def setEx (r : Redis) (key text : String) : Redis :=
  ⟨Function.update r.entries key (some ⟨.text text, true⟩)⟩

/-- `DEL`. -/
def del (r : Redis) (key : String) : Redis := ⟨Function.update r.entries key none⟩

/-- `INCR`, which is refused for what is no number. -/
def incr (r : Redis) (key : String) : Option (ℤ × Redis) :=
  match r.entries key with
  | none => some (1, ⟨Function.update r.entries key (some ⟨.number 1, false⟩)⟩)
  | some e =>
    e.value.number?.map fun n =>
      (n + 1, ⟨Function.update r.entries key (some { e with value := .number (n + 1) })⟩)

/-- `TTL` of a key, of which `seconds` are left if it has a time to live. -/
def ttl (r : Redis) (key : String) (seconds : ℤ) : ℤ :=
  match r.entries key with
  | none => -2
  | some e => if e.volatile then seconds else -1

/-- `EXPIRE` by a positive number of seconds. -/
def expire (r : Redis) (key : String) : Redis :=
  ⟨Function.update r.entries key ((r.entries key).map fun e => { e with volatile := true })⟩

/-- A key reaches the end of its time to live. -/
def vanish (r : Redis) (key : String) : Option Redis :=
  match r.entries key with
  | some e => if e.volatile then some (r.del key) else none
  | none => none

/-- `CONSUME_NONCE_LUA`, on its key and argument. -/
def consumeNonce (r : Redis) (key arg : String) : ℕ × Redis :=
  match r.get key with
  | none => (0, r)
  | some stored => if stored ≠ arg then (0, r) else (1, r.del key)

end Redis

/-! ### Wallets and their keys in Redis -/

/-- The pattern `^G[A-Z2-7]{55}$`. -/
def isPublicKeyText (s : String) : Bool :=
  match s.toList with
  | 'G' :: cs =>
    cs.length = 55 && cs.all fun c => ('A' ≤ c && c ≤ 'Z') || ('2' ≤ c && c ≤ '7')
  | _ => false

/-- An address that matches the pattern, as both request bodies are validated to hold. -/
structure WalletAddress where
  text : String
  valid : isPublicKeyText text = true
  deriving DecidableEq

/-- `normalizeWalletAddress`. -/
def normalizeWalletAddress (value : String) : Option WalletAddress :=
  let trimmed := String.ofList (Js.trim value.toList)
  if h : isPublicKeyText trimmed = true then some ⟨trimmed, h⟩ else none

/-- `NONCE_PREFIX` and the wallet. -/
def nonceKey (w : WalletAddress) : String := "auth:nonce:" ++ w.text

/-- `ATTEMPTS_PREFIX` and the wallet. -/
def attemptsKey (w : WalletAddress) : String := "auth:nonce:attempts:" ++ w.text

/-! ### Requests -/

structure VerifyWalletDto where
  walletAddress : WalletAddress
  nonce : String
  signature : String
  deriving DecidableEq

inductive AuthErrorCode where
  | nonceUnknown | nonceAlreadyUsed | nonceMismatch | signatureInvalid | walletInvalid
  | storeUnavailable
  deriving DecidableEq

/-- An exception a request ends with. -/
structure HttpException where
  status : ℕ
  code : Option AuthErrorCode
  message : String
  deriving DecidableEq

def unauthorized (code : AuthErrorCode) (message : String) : HttpException :=
  ⟨401, some code, message⟩

def storeUnavailable : HttpException :=
  ⟨503, some .storeUnavailable, "Authentication temporarily unavailable"⟩

/-- An error of the store that no handler catches. -/
def internalError : HttpException := ⟨500, none, "Internal server error"⟩

def tooManyAttempts : HttpException :=
  ⟨401, none, "Too many failed attempts; nonce invalidated"⟩

/-- `JwtPayload`, as it is signed. -/
structure JwtPayload where
  sub : String
  walletAddress : String
  deriving DecidableEq

/-- `issueJwt`, before it is signed. -/
def issueJwt (w : WalletAddress) : JwtPayload := ⟨w.text, w.text⟩

/-- `Keypair.fromPublicKey`, `Buffer.from(_, 'base64')` and `Keypair.verify`. -/
structure SignatureScheme where
  PublicKey : Type
  fromPublicKey : String → Option PublicKey
  base64 : String → ByteArray
  verify : PublicKey → ByteArray → ByteArray → Bool

/-- `assertSignatureValid`. -/
def assertSignatureValid (scheme : SignatureScheme) (walletAddress nonce signatureB64 : String) :
    Except HttpException Unit :=
  match scheme.fromPublicKey walletAddress with
  | none =>
    .error ⟨400, some .walletInvalid,
      "walletAddress '" ++ walletAddress ++ "' is not a valid Stellar public key"⟩
  | some keypair =>
    let signatureBytes := scheme.base64 signatureB64
    if signatureBytes.size ≠ 64 then
      .error (unauthorized .signatureInvalid "Signature is malformed")
    else if scheme.verify keypair nonce.toUTF8 signatureBytes then .ok ()
    else .error (unauthorized .signatureInvalid "Signature verification failed")

/-- `DEFAULT_MAX_NONCE_ATTEMPTS`. -/
def defaultMaxNonceAttempts : ℕ := 5

/-- What the configuration holds for `AUTH_MAX_NONCE_ATTEMPTS`. A number that is no integer is
nothing. -/
inductive Setting where
  | absent
  | number (n : Option ℤ)
  | text (s : String)
  deriving DecidableEq

/-- `maxNonceAttempts`. -/
def maxNonceAttempts (raw : Setting) : ℕ :=
  let parsed :=
    match raw with
    | .absent => none
    | .number n => n
    | .text s => Js.parseInt10 s
  match parsed with
  | some n => if 0 < n then n.toNat else defaultMaxNonceAttempts
  | none => defaultMaxNonceAttempts

/-! ### Requests in progress -/

/-- The next command of `verifyWallet`. From the check on, `storedNonce` is the nonce the check was
made against; a failed check ends in `err` unless it is one too many. -/
inductive Command where
  /-- `GET` the nonce, then check the nonce and the signature. -/
  | lookup
  /-- Run the script that consumes the nonce. -/
  | consume
  /-- `DEL` the attempts, then answer with a token. -/
  | clearAttempts
  /-- `registerFailedAttempt`: `INCR` the attempts. -/
  | countAttempt (storedNonce : String) (err : HttpException)
  /-- `TTL` of the nonce, after a first attempt. -/
  | readTtl (storedNonce : String) (err : HttpException) (attempts : ℤ)
  /-- `EXPIRE` the attempts. -/
  | expireAttempts (storedNonce : String) (err : HttpException) (attempts nonceTtl : ℤ)
  /-- `DEL` the nonce. -/
  | delNonce (storedNonce : String)
  /-- `DEL` the attempts. -/
  | delAttempts (storedNonce : String)
  deriving DecidableEq

structure Request where
  dto : VerifyWalletDto
  next : Command
  deriving DecidableEq

/-- What can be observed. A check of a signature or of a nonce is one against the nonce that was
stored. -/
inductive Observed where
  | issued (w : WalletAddress) (nonce : String)
  | verified (dto : VerifyWalletDto)
  | checkFailed (w : WalletAddress) (storedNonce : String)
  | invalidated (w : WalletAddress) (nonce : String)
  | answered (dto : VerifyWalletDto) (answer : Except HttpException JwtPayload)
  deriving DecidableEq

/-- What Redis replies to a command: it serves it, a time to live being `seconds`, or it fails. -/
inductive Reply where
  | served (seconds : ℤ)
  | failed
  deriving DecidableEq

/-- The store, the requests left and what is observed. -/
abbrev Outcome := Redis × List Request × List Observed

/-- A request ends with an exception. -/
def throws (r : Redis) (dto : VerifyWalletDto) (err : HttpException) : Outcome :=
  (r, [], [.answered dto (.error err)])

/-- The end of `registerFailedAttempt`, from the count on. -/
def afterAttempt (max : ℕ) (r : Redis) (dto : VerifyWalletDto) (storedNonce : String)
    (err : HttpException) (attempts : ℤ) : Outcome :=
  if (max : ℤ) ≤ attempts then (r, [⟨dto, .delNonce storedNonce⟩], []) else throws r dto err

/-- The steps of `verifyWallet`, from one command of Redis to the next. -/
def verifyWallet (scheme : SignatureScheme) (max : ℕ) (r : Redis) (dto : VerifyWalletDto)
    (seconds : ℤ) : Command → Outcome
  | .lookup =>
    match r.get (nonceKey dto.walletAddress) with
    | none => throws r dto (unauthorized .nonceUnknown "Nonce has expired or does not exist")
    | some storedNonce =>
      if storedNonce = "" then
        throws r dto (unauthorized .nonceUnknown "Nonce has expired or does not exist")
      else if storedNonce ≠ dto.nonce then
        (r, [⟨dto, .countAttempt storedNonce (unauthorized .nonceMismatch "Nonce mismatch")⟩],
          [.checkFailed dto.walletAddress storedNonce])
      else
        match assertSignatureValid scheme dto.walletAddress.text dto.nonce dto.signature with
        | .error err =>
          (r, [⟨dto, .countAttempt storedNonce err⟩], [.checkFailed dto.walletAddress storedNonce])
        | .ok () => (r, [⟨dto, .consume⟩], [.verified dto])
  | .consume =>
    let (consumed, r') := r.consumeNonce (nonceKey dto.walletAddress) dto.nonce
    if consumed ≠ 1 then
      throws r' dto (unauthorized .nonceAlreadyUsed "Nonce has already been used")
    else (r', [⟨dto, .clearAttempts⟩], [])
  | .clearAttempts =>
    (r.del (attemptsKey dto.walletAddress), [],
      [.answered dto (.ok (issueJwt dto.walletAddress))])
  | .countAttempt storedNonce err =>
    match r.incr (attemptsKey dto.walletAddress) with
    | none => throws r dto internalError
    | some (attempts, r') =>
      if attempts = 1 then (r', [⟨dto, .readTtl storedNonce err attempts⟩], [])
      else afterAttempt max r' dto storedNonce err attempts
  | .readTtl storedNonce err attempts =>
    let nonceTtl := r.ttl (nonceKey dto.walletAddress) seconds
    (r, [⟨dto, .expireAttempts storedNonce err attempts (if 0 < nonceTtl then nonceTtl else 120)⟩],
      [])
  | .expireAttempts storedNonce err attempts _ =>
    afterAttempt max (r.expire (attemptsKey dto.walletAddress)) dto storedNonce err attempts
  | .delNonce storedNonce =>
    (r.del (nonceKey dto.walletAddress), [⟨dto, .delAttempts storedNonce⟩],
      ((r.get (nonceKey dto.walletAddress)).map (.invalidated dto.walletAddress)).toList)
  | .delAttempts _ =>
    (r.del (attemptsKey dto.walletAddress), [], [.answered dto (.error tooManyAttempts)])

/-- What a request ends with when its next command fails. -/
def failure : Command → HttpException
  | .lookup | .consume => storeUnavailable
  | _ => internalError

/-- What happens around the requests in progress. -/
inductive Arrival where
  /-- A request to verify a wallet comes in. -/
  | verify (dto : VerifyWalletDto)
  /-- A request for a nonce is served with `nonce`. -/
  | issue (walletAddress nonce : String)
  /-- A nonce expires. -/
  | expireNonce (w : WalletAddress)
  /-- A counter of attempts expires. -/
  | expireAttempts (w : WalletAddress)
  deriving DecidableEq

/-- `issueNonce`, from the random nonce on. -/
def issueNonce (r : Redis) (walletAddress nonce : String) : Option Outcome :=
  (normalizeWalletAddress walletAddress).map fun w =>
    (r.setEx (nonceKey w) nonce, [], [.issued w nonce])

def rules (scheme : SignatureScheme) (max : ℕ) : Rules Redis Request Reply Arrival Observed where
  step r q
    | .served seconds => some (verifyWallet scheme max r q.dto seconds q.next)
    | .failed => some (throws r q.dto (failure q.next))
  outside r
    | .verify dto => some (r, [⟨dto, .lookup⟩], [])
    | .issue walletAddress nonce => issueNonce r walletAddress nonce
    | .expireNonce w => (r.vanish (nonceKey w)).map fun r' => (r', [], [])
    | .expireAttempts w => (r.vanish (attemptsKey w)).map fun r' => (r', [], [])

/-- Before the first request. -/
def start : Pool Redis Request Observed := ⟨.empty, [], []⟩

/-- A state that requests, issuances and expiries lead to. -/
def Reachable (scheme : SignatureScheme) (max : ℕ) (P : Pool Redis Request Observed) : Prop :=
  Reaches (rules scheme max) (fun _ _ => True) start P

end Swyft.Auth
