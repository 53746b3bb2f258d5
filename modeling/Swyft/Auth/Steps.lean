import Swyft.Auth.Model

/-!
# What a step of a request can do

The keys of nonces and of counters of attempts never meet, as an address begins with a `G`. With
that, every step of a request is one of eleven moves, each reading and writing what it names and
nothing else.

## Main results

* `nonceKey_ne_attemptsKey` — no key is both a nonce's and a counter's
* `Moves`, `moves_of_step` — the moves of a request
-/

namespace Swyft.Auth

open Interleaving

/-! ### Keys -/

theorem WalletAddress.text_inj {w w' : WalletAddress} (h : w.text = w'.text) : w = w' := by
  cases w
  cases h
  rfl

theorem nonceKey_inj {w w' : WalletAddress} (h : nonceKey w = nonceKey w') : w = w' :=
  WalletAddress.text_inj ((String.append_right_inj _).mp h)

theorem attemptsKey_inj {w w' : WalletAddress} (h : attemptsKey w = attemptsKey w') : w = w' :=
  WalletAddress.text_inj ((String.append_right_inj _).mp h)

theorem WalletAddress.head (w : WalletAddress) : w.text.toList.head? = some 'G' := by
  have h := w.valid
  unfold isPublicKeyText at h
  split at h
  · rename_i cs hcs
    rw [hcs, List.head?_cons]
  · cases h

theorem nonceKey_ne_attemptsKey (w w' : WalletAddress) : nonceKey w ≠ attemptsKey w' := by
  intro h
  have hprefix : "auth:nonce:attempts:" = "auth:nonce:" ++ "attempts:" := by decide
  have hsplit : attemptsKey w' = "auth:nonce:" ++ ("attempts:" ++ w'.text) := by
    rw [← String.append_assoc]
    exact congrArg (· ++ w'.text) hprefix
  have htext : w.text = "attempts:" ++ w'.text :=
    (String.append_right_inj "auth:nonce:").mp (h.trans hsplit)
  have hhead := w.head
  rw [htext, String.toList_append] at hhead
  simp at hhead

/-! ### Redis -/

namespace Redis

variable {r r' : Redis} {key key' text : String}

theorem get_congr (h : r.entries key = r'.entries key) : r.get key = r'.get key := by
  rw [get, get, h]

@[simp] theorem get_empty (key : String) : empty.get key = none := rfl

@[simp] theorem setEx_self : (r.setEx key text).entries key = some ⟨.text text, true⟩ := by
  simp [setEx]

theorem setEx_of_ne (h : key' ≠ key) : (r.setEx key text).entries key' = r.entries key' := by
  simp [setEx, h]

@[simp] theorem get_setEx_self : (r.setEx key text).get key = some text := by simp [get, Value.read]

@[simp] theorem del_self : (r.del key).entries key = none := by simp [del]

theorem del_of_ne (h : key' ≠ key) : (r.del key).entries key' = r.entries key' := by simp [del, h]

@[simp] theorem get_del_self : (r.del key).get key = none := by simp [get]

theorem expire_of_ne (h : key' ≠ key) : (r.expire key).entries key' = r.entries key' := by
  simp [expire, h]

theorem incr_of_ne {n : ℤ} (hincr : r.incr key = some (n, r')) (h : key' ≠ key) :
    r'.entries key' = r.entries key' := by
  unfold incr at hincr
  split at hincr
  · cases hincr
    simp [h]
  · obtain ⟨m, -, hm⟩ := Option.map_eq_some_iff.mp hincr
    cases hm
    simp [h]

theorem get_of_get_del {n : String} (h : (r.del key).get key' = some n) :
    r.get key' = some n := by
  by_cases hkey : key' = key
  · subst hkey
    simp at h
  · rwa [get_congr (del_of_ne hkey)] at h

/-- A key that expires is deleted. -/
theorem eq_del_of_vanish (h : r.vanish key = some r') : r' = r.del key := by
  unfold vanish at h
  split at h
  · split at h <;> simp_all
  · cases h

/-- The script consumes the nonce if it is the one stored, and does nothing otherwise. -/
theorem consumeNonce_cases (r : Redis) (key arg : String) :
    r.get key = some arg ∧ r.consumeNonce key arg = (1, r.del key) ∨
      r.get key ≠ some arg ∧ r.consumeNonce key arg = (0, r) := by
  unfold consumeNonce
  cases hstored : r.get key with
  | none => simp
  | some stored => by_cases h : stored = arg <;> simp [h]

end Redis

theorem afterAttempt_cases (max : ℕ) (r : Redis) (dto : VerifyWalletDto) (storedNonce : String)
    (err : HttpException) (attempts : ℤ) :
    (max : ℤ) ≤ attempts ∧ afterAttempt max r dto storedNonce err attempts =
        (r, [⟨dto, .delNonce storedNonce⟩], []) ∨
      attempts < max ∧ afterAttempt max r dto storedNonce err attempts = throws r dto err := by
  by_cases h : (max : ℤ) ≤ attempts
  · exact .inl ⟨h, if_pos h⟩
  · exact .inr ⟨Int.not_le.mp h, if_neg h⟩

/-! ### Moves -/

/-- The signature is one of the nonce by the wallet's key. -/
def Signed (scheme : SignatureScheme) (dto : VerifyWalletDto) : Prop :=
  ∃ keypair, scheme.fromPublicKey dto.walletAddress.text = some keypair ∧
    scheme.verify keypair dto.nonce.toUTF8 (scheme.base64 dto.signature) = true

theorem signed_of_assertSignatureValid {scheme : SignatureScheme} {dto : VerifyWalletDto}
    (h : assertSignatureValid scheme dto.walletAddress.text dto.nonce dto.signature = .ok ()) :
    Signed scheme dto := by
  unfold assertSignatureValid at h
  split at h
  · cases h
  · rename_i keypair hkey
    refine ⟨keypair, hkey, ?_⟩
    simp only at h
    split at h
    · cases h
    · split at h
      · assumption
      · cases h

/-- The check against the nonce that is stored fails. -/
def checkFails (scheme : SignatureScheme) (r : Redis) (dto : VerifyWalletDto) : Bool :=
  match r.get (nonceKey dto.walletAddress) with
  | none => false
  | some storedNonce =>
    storedNonce ≠ "" && (storedNonce ≠ dto.nonce ||
      match assertSignatureValid scheme dto.walletAddress.text dto.nonce dto.signature with
      | .ok () => false
      | .error _ => true)

/-- The moves of a request of `dto`, by the command it is at and Redis's reply. -/
inductive Moves (scheme : SignatureScheme) (max : ℕ) (r : Redis) (dto : VerifyWalletDto)
    (x : Reply) : Command → Outcome → Prop
  /-- The request ends with an exception and touches nothing. -/
  | throws (c : Command) (err : HttpException) :
      (∀ storedNonce err, c ≠ .countAttempt storedNonce err) →
      Moves scheme max r dto x c (throws r dto err)
  /-- The request ends before its failed check is counted. -/
  | uncounted (storedNonce : String) (err : HttpException) :
      x = .failed ∨ r.incr (attemptsKey dto.walletAddress) = none →
      Moves scheme max r dto x (.countAttempt storedNonce err) (throws r dto internalError)
  | failsCheck (storedNonce : String) (err : HttpException) :
      r.get (nonceKey dto.walletAddress) = some storedNonce → checkFails scheme r dto = true →
      Moves scheme max r dto x .lookup (r, [⟨dto, .countAttempt storedNonce err⟩],
        [.checkFailed dto.walletAddress storedNonce])
  | passesCheck :
      r.get (nonceKey dto.walletAddress) = some dto.nonce → Signed scheme dto →
      Moves scheme max r dto x .lookup (r, [⟨dto, .consume⟩], [.verified dto])
  | consumes :
      r.get (nonceKey dto.walletAddress) = some dto.nonce →
      Moves scheme max r dto x .consume
        (r.del (nonceKey dto.walletAddress), [⟨dto, .clearAttempts⟩], [])
  | answers :
      Moves scheme max r dto x .clearAttempts (r.del (attemptsKey dto.walletAddress), [],
        [.answered dto (.ok (issueJwt dto.walletAddress))])
  | countsFirst (storedNonce : String) (err : HttpException) (r' : Redis) :
      r.incr (attemptsKey dto.walletAddress) = some (1, r') →
      Moves scheme max r dto x (.countAttempt storedNonce err)
        (r', [⟨dto, .readTtl storedNonce err 1⟩], [])
  | counts (storedNonce : String) (err : HttpException) (attempts : ℤ) (r' : Redis) :
      r.incr (attemptsKey dto.walletAddress) = some (attempts, r') → attempts ≠ 1 →
      Moves scheme max r dto x (.countAttempt storedNonce err)
        (afterAttempt max r' dto storedNonce err attempts)
  | readsTtl (storedNonce : String) (err : HttpException) (attempts nonceTtl : ℤ) :
      Moves scheme max r dto x (.readTtl storedNonce err attempts)
        (r, [⟨dto, .expireAttempts storedNonce err attempts nonceTtl⟩], [])
  | setsExpiry (storedNonce : String) (err : HttpException) (attempts nonceTtl : ℤ) :
      Moves scheme max r dto x (.expireAttempts storedNonce err attempts nonceTtl)
        (afterAttempt max (r.expire (attemptsKey dto.walletAddress)) dto storedNonce err attempts)
  | invalidates (storedNonce : String) :
      Moves scheme max r dto x (.delNonce storedNonce)
        (r.del (nonceKey dto.walletAddress), [⟨dto, .delAttempts storedNonce⟩],
          ((r.get (nonceKey dto.walletAddress)).map (.invalidated dto.walletAddress)).toList)
  | forgets (storedNonce : String) :
      Moves scheme max r dto x (.delAttempts storedNonce)
        (r.del (attemptsKey dto.walletAddress), [], [.answered dto (.error tooManyAttempts)])

/-- The steps of `verifyWallet` are moves. -/
theorem moves_of_verifyWallet (scheme : SignatureScheme) (max : ℕ) (r : Redis)
    (dto : VerifyWalletDto) (seconds : ℤ) (c : Command) :
    Moves scheme max r dto (.served seconds) c (verifyWallet scheme max r dto seconds c) := by
  cases c with
  | lookup =>
    simp only [verifyWallet]
    split
    · exact .throws _ _ (by simp)
    · rename_i storedNonce hget
      split_ifs with hempty hmatch
      · exact .throws _ _ (by simp)
      · exact .failsCheck _ _ hget (by simp [checkFails, hget, hempty, hmatch])
      · rw [not_not] at hmatch
        split
        · rename_i err hinvalid
          refine .failsCheck _ _ hget ?_
          simp only [checkFails, hget, hinvalid, Bool.or_true, Bool.and_true, decide_eq_true_eq]
          exact hempty
        · rename_i hvalid
          exact .passesCheck (hmatch ▸ hget) (signed_of_assertSignatureValid hvalid)
  | consume =>
    simp only [verifyWallet]
    rcases r.consumeNonce_cases (nonceKey dto.walletAddress) dto.nonce with
      ⟨hget, h⟩ | ⟨-, h⟩
    · rw [h, if_neg (not_not.mpr rfl)]
      exact .consumes hget
    · rw [h, if_pos Nat.zero_ne_one]
      exact .throws _ _ (by simp)
  | clearAttempts => exact .answers
  | countAttempt storedNonce err =>
    simp only [verifyWallet]
    split
    · rename_i hincr
      exact .uncounted _ _ (.inr hincr)
    · rename_i attempts r' hincr
      split_ifs with hfirst
      · subst hfirst
        exact .countsFirst _ _ _ hincr
      · exact .counts _ _ _ _ hincr hfirst
  | readTtl storedNonce err attempts => exact .readsTtl _ _ _ _
  | expireAttempts storedNonce err attempts nonceTtl => exact .setsExpiry _ _ _ _
  | delNonce storedNonce => exact .invalidates _
  | delAttempts storedNonce => exact .forgets _

/-- Every step of a request is a move. -/
theorem moves_of_step {scheme : SignatureScheme} {max : ℕ} {r : Redis} {q : Request} {x : Reply}
    {o : Outcome} (h : (rules scheme max).step r q x = some o) :
    Moves scheme max r q.dto x q.next o := by
  cases x with
  | served seconds =>
    obtain rfl := Option.some.inj h
    exact moves_of_verifyWallet scheme max r q.dto seconds q.next
  | failed =>
    obtain rfl := Option.some.inj h
    by_cases hcount : ∃ storedNonce err, q.next = .countAttempt storedNonce err
    · obtain ⟨storedNonce, err, hnext⟩ := hcount
      rw [hnext]
      exact .uncounted _ _ (.inl rfl)
    · exact .throws _ _ fun storedNonce err hnext => hcount ⟨storedNonce, err, hnext⟩

/-- What happens around the requests: one comes in, a nonce is issued or a key expires. -/
theorem outside_cases {scheme : SignatureScheme} {max : ℕ} {r : Redis} {e : Arrival} {o : Outcome}
    (h : (rules scheme max).outside r e = some o) :
    (∃ dto, e = .verify dto ∧ o = (r, [⟨dto, .lookup⟩], [])) ∨
    (∃ walletAddress w nonce, (e = .issue walletAddress nonce ∧
      normalizeWalletAddress walletAddress = some w) ∧
      o = (r.setEx (nonceKey w) nonce, [], [.issued w nonce])) ∨
    (∃ w, e = .expireNonce w ∧ o = (r.del (nonceKey w), [], [])) ∨
    ∃ w, e = .expireAttempts w ∧ o = (r.del (attemptsKey w), [], []) := by
  cases e with
  | verify dto =>
    simp only [rules, Option.some.injEq] at h
    exact .inl ⟨dto, rfl, h.symm⟩
  | issue walletAddress nonce =>
    simp only [rules, issueNonce, Option.map_eq_some_iff] at h
    obtain ⟨w, hw, ho⟩ := h
    exact .inr (.inl ⟨walletAddress, w, nonce, ⟨rfl, hw⟩, ho.symm⟩)
  | expireNonce w =>
    simp only [rules, Option.map_eq_some_iff] at h
    obtain ⟨r', hr, ho⟩ := h
    exact .inr (.inr (.inl ⟨w, rfl, by rw [← ho, Redis.eq_del_of_vanish hr]⟩))
  | expireAttempts w =>
    simp only [rules, Option.map_eq_some_iff] at h
    obtain ⟨r', hr, ho⟩ := h
    exact .inr (.inr (.inr ⟨w, rfl, by rw [← ho, Redis.eq_del_of_vanish hr]⟩))

end Swyft.Auth
