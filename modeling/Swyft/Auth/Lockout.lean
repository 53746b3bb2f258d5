import Swyft.Auth.SingleUse

/-!
# Locking a nonce out

The counter of failed attempts is meant for a nonce but kept for a wallet. It counts the failed
checks of one nonce only while it starts from nothing when the nonce is issued, every failed check
reaches it, and it outlives the nonce; and it limits them only while no request checks a nonce
that others, not counted yet, have used up. In a run whose steps all respect this, at most the
configured number of checks fail against a nonce, and a lockout only ever removes a nonce that
many checks failed against. Otherwise attempts against an earlier nonce lock out a later one.

## Main results

* `lockout_exact` — what orderly runs guarantee
* `lockout_carries_over`, `lockout_exceeded` — what other runs do
-/

namespace Swyft.Auth

open Interleaving

variable {scheme : SignatureScheme} {max : ℕ}

/-! ### What is promised -/

/-- A failed check against the nonce. -/
def isFailedCheck (n : String) : Observed → Bool
  | .checkFailed _ storedNonce => storedNonce = n
  | _ => false

/-- How many checks failed against the nonce. -/
def failedChecks (n : String) (log : List Observed) : ℕ := log.countP (isFailedCheck n)

/-- A nonce that is locked out is one against which `max` checks have failed. -/
def LockedOut (max : ℕ) (log : List Observed) : Observed → Prop
  | .invalidated _ n => max ≤ failedChecks n log
  | _ => True

/-- At most `max` checks fail against a nonce, and no nonce is locked out for less. -/
def LockoutExact (max : ℕ) (log : List Observed) : Prop :=
  (∀ n, failedChecks n log ≤ max) ∧ Preceded (LockedOut max) log

/-! ### Orderly runs -/

/-- The counter of a wallet, zero where there is none. -/
def attemptsOf (r : Redis) (w : WalletAddress) : ℤ :=
  match r.entries (attemptsKey w) with
  | some ⟨.number n, _⟩ => n
  | _ => 0

/-- A request of the wallet whose failed check is not counted yet. -/
def uncounted (w : WalletAddress) (q : Request) : Bool :=
  q.dto.walletAddress = w &&
    match q.next with
    | .countAttempt _ _ => true
    | _ => false

/-- How many failed checks of the wallet are not counted yet. -/
def pending (w : WalletAddress) (running : List Request) : ℕ := running.countP (uncounted w)

/-- A request that will not touch the keys of its wallet before it has looked the nonce up or
consumed it. -/
def untouching (q : Request) : Bool := q.next = .lookup || q.next = .consume

/-- The steps that keep the counter about the nonce that is stored: a check that fails is one the
counter has room for, together with those to be counted; no count is lost; a nonce is issued when
the wallet has no counter and no request that may write one or remove one; and the counter of a
wallet expires only when it has no nonce. -/
def Orderly (scheme : SignatureScheme) (max : ℕ) (P : Pool Redis Request Observed) :
    Act Reply Arrival → Prop
  | .step i x => ∀ q ∈ P.running[i]?,
    (q.next = .lookup → checkFails scheme P.shared q.dto = true →
      attemptsOf P.shared q.dto.walletAddress + pending q.dto.walletAddress P.running < max) ∧
    (uncounted q.dto.walletAddress q = true → x ≠ .failed)
  | .outside (.issue walletAddress _) => ∀ w ∈ normalizeWalletAddress walletAddress,
    P.shared.entries (attemptsKey w) = none ∧
      ∀ q ∈ P.running, q.dto.walletAddress = w → untouching q = true
  | .outside (.expireAttempts w) => P.shared.get (nonceKey w) = none
  | .outside (.expireNonce _) | .outside (.verify _) => True

instance decidableOrderly (scheme : SignatureScheme) (max : ℕ)
    (P : Pool Redis Request Observed) : ∀ a, Decidable (Orderly scheme max P a)
  | .step i x => inferInstanceAs (Decidable (∀ q ∈ P.running[i]?,
    (q.next = .lookup → checkFails scheme P.shared q.dto = true →
      attemptsOf P.shared q.dto.walletAddress + pending q.dto.walletAddress P.running < max) ∧
    (uncounted q.dto.walletAddress q = true → x ≠ .failed)))
  | .outside (.issue walletAddress _) =>
    inferInstanceAs (Decidable (∀ w ∈ normalizeWalletAddress walletAddress,
      P.shared.entries (attemptsKey w) = none ∧
        ∀ q ∈ P.running, q.dto.walletAddress = w → untouching q = true))
  | .outside (.expireAttempts w) =>
    inferInstanceAs (Decidable (P.shared.get (nonceKey w) = none))
  | .outside (.expireNonce _) | .outside (.verify _) => instDecidableTrue

/-! ### Counters -/

/-- Counters of attempts hold numbers. -/
def Counting (r : Redis) : Prop :=
  ∀ w e, r.entries (attemptsKey w) = some e → ∃ n, e.value = .number n

section Counters

variable {r r' : Redis} {w w' : WalletAddress}

theorem attemptsOf_congr (h : r.entries (attemptsKey w) = r'.entries (attemptsKey w)) :
    attemptsOf r w = attemptsOf r' w := by
  rw [attemptsOf, attemptsOf, h]

theorem attemptsOf_eq_zero (h : r.entries (attemptsKey w) = none) : attemptsOf r w = 0 := by
  rw [attemptsOf, h]

theorem Counting.congr (h : Counting r)
    (hsame : ∀ w, r'.entries (attemptsKey w) = r.entries (attemptsKey w)) : Counting r' :=
  fun w e he => h w e (hsame w ▸ he)

theorem Counting.del (h : Counting r) (key : String) : Counting (r.del key) := by
  intro w e he
  by_cases hkey : attemptsKey w = key
  · rw [hkey, Redis.del_self] at he
    cases he
  · rw [Redis.del_of_ne hkey] at he
    exact h w e he

theorem Counting.expire (h : Counting r) (key : String) : Counting (r.expire key) := by
  intro w e he
  by_cases hkey : attemptsKey w = key
  · subst hkey
    simp only [Redis.expire, Function.update_self, Option.map_eq_some_iff] at he
    obtain ⟨e', he', rfl⟩ := he
    exact h w e' he'
  · rw [Redis.expire_of_ne hkey] at he
    exact h w e he

theorem attemptsOf_expire (h : Counting r) : attemptsOf (r.expire (attemptsKey w)) w' =
    attemptsOf r w' := by
  by_cases hw : w' = w
  · subst hw
    cases he : r.entries (attemptsKey w') with
    | none => simp [attemptsOf, Redis.expire, he]
    | some e =>
      obtain ⟨n, hn⟩ := h w' e he
      obtain ⟨value, volatile⟩ := e
      obtain rfl : value = .number n := hn
      simp [attemptsOf, Redis.expire, he]
  · exact attemptsOf_congr (Redis.expire_of_ne fun h => hw (attemptsKey_inj h))

/-- Counting an attempt adds one to the counter, whose value is the number of the attempt. -/
theorem attemptsOf_incr (h : Counting r) {n : ℤ} (hincr : r.incr (attemptsKey w) = some (n, r')) :
    n = attemptsOf r w + 1 ∧ attemptsOf r' w = n ∧ Counting r' := by
  have hothers : ∀ w', w' ≠ w → r'.entries (attemptsKey w') = r.entries (attemptsKey w') :=
    fun w' hw => Redis.incr_of_ne hincr fun h => hw (attemptsKey_inj h)
  have hcounting : (∃ v, r'.entries (attemptsKey w) = some ⟨.number n, v⟩) → Counting r' := by
    rintro ⟨v, hv⟩ w' e he
    by_cases hw : w' = w
    · subst hw
      rw [hv] at he
      cases he
      exact ⟨n, rfl⟩
    · exact h w' e (hothers w' hw ▸ he)
  cases he : r.entries (attemptsKey w) with
  | none =>
    simp only [Redis.incr, he, Option.some.injEq, Prod.mk.injEq] at hincr
    obtain ⟨rfl, rfl⟩ := hincr
    exact ⟨by simp [attemptsOf, he], by simp [attemptsOf], hcounting ⟨false, by simp⟩⟩
  | some e =>
    obtain ⟨m, hm⟩ := h w e he
    obtain ⟨value, volatile⟩ := e
    obtain rfl : value = .number m := hm
    simp only [Redis.incr, he, Value.number?, Option.map_some, Option.some.injEq,
      Prod.mk.injEq] at hincr
    obtain ⟨rfl, rfl⟩ := hincr
    exact ⟨by simp [attemptsOf, he], by simp [attemptsOf], hcounting ⟨volatile, by simp⟩⟩

theorem incr_ne_none (h : Counting r) : r.incr (attemptsKey w) ≠ none := by
  cases he : r.entries (attemptsKey w) with
  | none => simp [Redis.incr, he]
  | some e =>
    obtain ⟨n, hn⟩ := h w e he
    simp [Redis.incr, he, hn, Value.number?]

end Counters

/-! ### The tally of a stored nonce -/

/-- What a request relies on while a nonce of its wallet is stored: the count it goes by is still
there, and it does not remove the counter. -/
def Command.Relies (max : ℕ) (r : Redis) (w : WalletAddress) : Command → Prop
  | .lookup | .consume | .countAttempt _ _ => True
  | .readTtl _ _ attempts | .expireAttempts _ _ attempts _ => attempts ≤ attemptsOf r w
  | .delNonce _ => max ≤ attemptsOf r w
  | .clearAttempts | .delAttempts _ => False

theorem Command.Relies.mono {r r' : Redis} {w : WalletAddress} {c : Command}
    (h : c.Relies max r w) (hle : attemptsOf r w ≤ attemptsOf r' w) : c.Relies max r' w := by
  cases c with
  | readTtl | expireAttempts | delNonce => exact Int.le_trans h hle
  | lookup | consume | countAttempt => trivial
  | clearAttempts | delAttempts => exact h

/-- The failed checks against a nonce that is stored are those counted and those to be counted. -/
structure Tallied (max : ℕ) (P : Pool Redis Request Observed) : Prop where
  counting : Counting P.shared
  tally : ∀ w n, P.shared.get (nonceKey w) = some n →
    (failedChecks n P.log : ℤ) = attemptsOf P.shared w + pending w P.running
  relies : ∀ q ∈ P.running, ∀ n, P.shared.get (nonceKey q.dto.walletAddress) = some n →
    q.next.Relies max P.shared q.dto.walletAddress
  known : ∀ n, failedChecks n P.log ≠ 0 → n ∈ issuedNonces P.log
  exact : LockoutExact max P.log

theorem failedChecks_append (n : String) (log seen : List Observed) :
    failedChecks n (log ++ seen) = failedChecks n log + failedChecks n seen :=
  List.countP_append ..

theorem pending_append (w : WalletAddress) (qs qs' : List Request) :
    pending w (qs ++ qs') = pending w qs + pending w qs' :=
  List.countP_append ..

section Moves

variable {r r' : Redis} {log seen : List Observed} {before after ps : List Request} {q : Request}

/-- A step of a request that keeps the tally of every nonce left. What it observes is at most one
failed check, of a nonce that has room for it, or one lockout, of a nonce that is due. -/
theorem Tallied.move (h : Tallied max ⟨r, before ++ q :: after, log⟩) (hcounting : Counting r')
    (hget : ∀ w n, r'.get (nonceKey w) = some n → r.get (nonceKey w) = some n)
    (hmono : ∀ w n, r'.get (nonceKey w) = some n → attemptsOf r w ≤ attemptsOf r' w)
    (htally : ∀ w n, r'.get (nonceKey w) = some n →
      attemptsOf r' w + pending w ps = attemptsOf r w + pending w [q] + failedChecks n seen)
    (hps : ∀ p ∈ ps, ∀ n, r'.get (nonceKey p.dto.walletAddress) = some n →
      p.next.Relies max r' p.dto.walletAddress)
    (hfailed : ∀ n, failedChecks n seen ≠ 0 →
      n ∈ issuedNonces log ∧ failedChecks n log + failedChecks n seen ≤ max)
    (hlocked : Preceded (LockedOut max) (log ++ seen)) :
    Tallied max ⟨r', before ++ ps ++ after, log ++ seen⟩ := by
  refine ⟨hcounting, fun w n hn => ?_, fun p hp n hn => ?_, fun n hn => ?_, fun n => ?_, hlocked⟩
  · have hbefore := h.tally w n (hget w n hn)
    have hstep := htally w n hn
    rw [← List.singleton_append] at hbefore
    simp only [failedChecks_append, pending_append] at hbefore ⊢
    omega
  · simp only [List.mem_append] at hp
    have hkeeps : p ∈ before ++ q :: after → p.next.Relies max r' p.dto.walletAddress := fun hp =>
      (h.relies p hp n (hget _ n hn)).mono (hmono _ n hn)
    rcases hp with (hp | hp) | hp
    · exact hkeeps (List.mem_append_left _ hp)
    · exact hps p hp n hn
    · exact hkeeps (List.mem_append_right _ (.tail _ hp))
  · rw [issuedNonces_append]
    refine List.mem_append_left _ ?_
    by_cases hseen : failedChecks n seen = 0
    · rw [failedChecks_append, hseen] at hn
      exact h.known n hn
    · exact (hfailed n hseen).1
  · rw [failedChecks_append]
    by_cases hseen : failedChecks n seen = 0
    · rw [hseen]
      exact h.exact.1 n
    · exact (hfailed n hseen).2

/-- A step that observes no check and no lockout. -/
theorem Tallied.quiet (h : Tallied max ⟨r, before ++ q :: after, log⟩) (hcounting : Counting r')
    (hget : ∀ w n, r'.get (nonceKey w) = some n → r.get (nonceKey w) = some n)
    (hmono : ∀ w n, r'.get (nonceKey w) = some n → attemptsOf r w ≤ attemptsOf r' w)
    (htally : ∀ w n, r'.get (nonceKey w) = some n →
      attemptsOf r' w + pending w ps = attemptsOf r w + pending w [q])
    (hps : ∀ p ∈ ps, ∀ n, r'.get (nonceKey p.dto.walletAddress) = some n →
      p.next.Relies max r' p.dto.walletAddress)
    (hseen : ∀ x ∈ seen, (∀ n, isFailedCheck n x = false) ∧ ∀ log, LockedOut max log x)
    (hlen : seen.length ≤ 1) : Tallied max ⟨r', before ++ ps ++ after, log ++ seen⟩ := by
  have hnone : ∀ n, failedChecks n seen = 0 := fun n =>
    List.countP_eq_zero.mpr fun x hx => by simp [(hseen x hx).1 n]
  refine h.move hcounting hget hmono (fun w n hn => ?_) hps (fun n hn => absurd (hnone n) hn) ?_
  · rw [hnone, htally w n hn]
    simp
  · match seen, hlen with
    | [], _ => simpa using h.exact.2
    | [x], _ => exact h.exact.2.snoc ((hseen x (.head _)).2 log)

/-- A check fails that the counter has room for. -/
theorem Tallied.check {dto : VerifyWalletDto} {err : HttpException} {n : String}
    (h : Tallied max ⟨r, before ++ ⟨dto, .lookup⟩ :: after, log⟩) (hsound : Sound scheme r log)
    (hlog : (issuedNonces log).Nodup) (hget : r.get (nonceKey dto.walletAddress) = some n)
    (hroom : attemptsOf r dto.walletAddress +
      pending dto.walletAddress (before ++ ⟨dto, .lookup⟩ :: after) < max) :
    Tallied max ⟨r, before ++ [⟨dto, .countAttempt n err⟩] ++ after,
      log ++ [.checkFailed dto.walletAddress n]⟩ := by
  have hone : ∀ m, failedChecks m [.checkFailed dto.walletAddress n] = if n = m then 1 else 0 := by
    intro m
    simp [failedChecks, isFailedCheck, List.countP_cons]
  refine h.move h.counting (fun _ _ h => h) (fun _ _ _ => Int.le_refl _) ?_ ?_ ?_ ?_
  · intro w m hm
    have hiff : dto.walletAddress = w ↔ n = m := by
      constructor
      · rintro rfl
        rw [hget] at hm
        exact Option.some.inj hm
      · rintro rfl
        exact wallet_unique hlog (hsound.stored _ _ hget) (hsound.stored _ _ hm)
    rw [hone]
    by_cases hw : dto.walletAddress = w
    · simp [pending, uncounted, hw, hiff.mp hw]
    · simp [pending, uncounted, hw, mt hiff.mpr hw]
  · simp [Command.Relies]
  · intro m hm
    obtain rfl : n = m := by
      by_contra hne
      exact hm (by rw [hone, if_neg hne])
    refine ⟨mem_issuedNonces (hsound.stored _ _ hget), ?_⟩
    have htally := h.tally _ _ hget
    rw [hone, if_pos rfl]
    simp only at htally
    omega
  · exact h.exact.2.snoc trivial

/-- The counter is taken from a wallet that has no nonce, as the request relies on. -/
theorem Tallied.clear {dto : VerifyWalletDto} {c : Command}
    (h : Tallied max ⟨r, before ++ ⟨dto, c⟩ :: after, log⟩)
    (hc : ∀ r', ¬ c.Relies max r' dto.walletAddress) {x : Observed}
    (hx : (∀ n, isFailedCheck n x = false) ∧ ∀ log, LockedOut max log x) :
    Tallied max ⟨r.del (attemptsKey dto.walletAddress), before ++ [] ++ after, log ++ [x]⟩ := by
  have hsame : ∀ w n, (r.del (attemptsKey dto.walletAddress)).get (nonceKey w) = some n →
      w ≠ dto.walletAddress ∧ attemptsOf (r.del (attemptsKey dto.walletAddress)) w =
        attemptsOf r w := by
    intro w n hn
    have hne : w ≠ dto.walletAddress := by
      rintro rfl
      exact hc r (h.relies _ (List.mem_append_right _ (.head _)) n (Redis.get_of_get_del hn))
    exact ⟨hne, attemptsOf_congr (Redis.del_of_ne fun h => hne (attemptsKey_inj h))⟩
  refine h.quiet (h.counting.del _) (fun _ _ => Redis.get_of_get_del) ?_ ?_ (by simp)
    (by simpa using hx) (Nat.le_refl 1)
  · intro w n hn
    exact Int.le_of_eq (hsame w n hn).2.symm
  · intro w n hn
    rw [(hsame w n hn).2]
    simp [pending, uncounted, (hsame w n hn).1.symm]

/-- A failed check is counted, or found one too many, and the count stands. -/
theorem Tallied.afterAttempt {dto : VerifyWalletDto} {c : Command} {storedNonce : String}
    {err : HttpException} {attempts : ℤ}
    (h : Tallied max ⟨r, before ++ ⟨dto, c⟩ :: after, log⟩) (hcounting : Counting r')
    (hget : ∀ w, r'.get (nonceKey w) = r.get (nonceKey w))
    (hmono : ∀ w n, r.get (nonceKey w) = some n → attemptsOf r w ≤ attemptsOf r' w)
    (htally : ∀ w n, r.get (nonceKey w) = some n →
      attemptsOf r' w = attemptsOf r w + pending w [⟨dto, c⟩])
    (hattempts : ∀ n, r.get (nonceKey dto.walletAddress) = some n →
      attempts ≤ attemptsOf r' dto.walletAddress) :
    ∀ o, o = Auth.afterAttempt max r' dto storedNonce err attempts →
      Tallied max ⟨o.1, before ++ o.2.1 ++ after, log ++ o.2.2⟩ := by
  rintro o rfl
  have hback : ∀ w n, r'.get (nonceKey w) = some n → r.get (nonceKey w) = some n := by
    intro w n hn
    rwa [hget] at hn
  have hmono' := fun w n hn => hmono w n (hback w n hn)
  have htally' := fun w n hn => htally w n (hback w n hn)
  rcases afterAttempt_cases max r' dto storedNonce err attempts with ⟨hle, heq⟩ | ⟨-, heq⟩
  · rw [heq]
    refine h.quiet hcounting hback hmono' ?_ ?_ (by simp) (by simp)
    · intro w n hn
      simp [htally' w n hn, pending, uncounted]
    · simp only [List.mem_singleton, forall_eq]
      exact fun n hn => Int.le_trans hle (hattempts n (hback _ n hn))
  · rw [heq]
    refine h.quiet hcounting hback hmono' ?_ (by simp [throws]) ?_ (by simp [throws])
    · intro w n hn
      simp [throws, htally' w n hn, pending, uncounted]
    · simp [throws, isFailedCheck, LockedOut]

/-- What counting a failed check does to the counters. -/
theorem Tallied.incr {dto : VerifyWalletDto} {storedNonce : String} {err : HttpException} {n : ℤ}
    (h : Tallied max ⟨r, before ++ ⟨dto, .countAttempt storedNonce err⟩ :: after, log⟩)
    (hincr : r.incr (attemptsKey dto.walletAddress) = some (n, r')) :
    Counting r' ∧ (∀ w, r'.get (nonceKey w) = r.get (nonceKey w)) ∧
      (∀ w, attemptsOf r w ≤ attemptsOf r' w) ∧
      ∀ w, attemptsOf r' w =
        attemptsOf r w + pending w [⟨dto, .countAttempt storedNonce err⟩] := by
  obtain ⟨hone, hnew, hcounting⟩ := attemptsOf_incr h.counting hincr
  have htally : ∀ w, attemptsOf r' w =
      attemptsOf r w + pending w [⟨dto, .countAttempt storedNonce err⟩] := by
    intro w
    by_cases hw : dto.walletAddress = w
    · subst hw
      simp [pending, Auth.uncounted, hnew, hone]
    · have hsame : attemptsOf r' w = attemptsOf r w :=
        attemptsOf_congr (Redis.incr_of_ne hincr fun h => hw (attemptsKey_inj h).symm)
      simp [pending, Auth.uncounted, hw, hsame]
  refine ⟨hcounting, fun w => ?_, fun w => ?_, htally⟩
  · exact Redis.get_congr (Redis.incr_of_ne hincr (nonceKey_ne_attemptsKey w _))
  · rw [htally w]
    omega

end Moves

/-- An orderly move keeps the tally. -/
theorem Moves.tallied {r : Redis} {dto : VerifyWalletDto} {x : Reply} {c : Command}
    {log : List Observed} {before after : List Request} {o : Outcome}
    (hmove : Moves scheme max r dto x c o)
    (h : Tallied max ⟨r, before ++ ⟨dto, c⟩ :: after, log⟩) (hsound : Sound scheme r log)
    (hlog : (issuedNonces log).Nodup)
    (horderly : Orderly scheme max ⟨r, before ++ ⟨dto, c⟩ :: after, log⟩ (.step before.length x)) :
    Tallied max ⟨o.1, before ++ o.2.1 ++ after, log ++ o.2.2⟩ := by
  obtain ⟨hroom, hserved⟩ := horderly ⟨dto, c⟩ (by simp)
  have hrelies := h.relies ⟨dto, c⟩ (by simp)
  cases hmove with
  | throws c err hc =>
    refine h.quiet h.counting (fun _ _ h => h) (fun _ _ _ => Int.le_refl _) ?_
      (by simp [Auth.throws]) (by simp [Auth.throws, isFailedCheck, LockedOut])
      (by simp [Auth.throws])
    have hcount : ∀ w, Auth.uncounted w ⟨dto, c⟩ = false := by
      intro w
      cases c with
      | countAttempt storedNonce err => exact absurd rfl (hc storedNonce err)
      | _ => simp [Auth.uncounted]
    simp [Auth.throws, pending, hcount]
  | uncounted storedNonce err hfailed =>
    rcases hfailed with hfailed | hfailed
    · exact absurd hfailed (hserved (by simp [Auth.uncounted]))
    · exact absurd hfailed (incr_ne_none h.counting)
  | failsCheck storedNonce err hget hfails =>
    exact h.check hsound hlog hget (hroom rfl hfails)
  | passesCheck hget hsigned =>
    exact h.quiet h.counting (fun _ _ h => h) (fun _ _ _ => Int.le_refl _)
      (by simp [pending, Auth.uncounted]) (by simp [Command.Relies])
      (by simp [isFailedCheck, LockedOut]) (by simp)
  | consumes hget =>
    have hsame : ∀ w, attemptsOf (r.del (nonceKey dto.walletAddress)) w = attemptsOf r w := fun w =>
      attemptsOf_congr (Redis.del_of_ne (nonceKey_ne_attemptsKey _ w).symm)
    exact h.quiet (h.counting.del _) (fun _ _ => Redis.get_of_get_del)
      (fun w _ _ => Int.le_of_eq (hsame w).symm) (by simp [hsame, pending, Auth.uncounted])
      (by simp) (by simp) (by simp)
  | answers => exact h.clear (fun _ h => h) ⟨fun _ => rfl, fun _ => trivial⟩
  | countsFirst storedNonce err r' hincr =>
    obtain ⟨-, hnew, -⟩ := attemptsOf_incr h.counting hincr
    obtain ⟨hcounting, hget, hmono, htally⟩ := h.incr hincr
    refine h.quiet hcounting (fun w n hn => hget w ▸ hn) (fun w _ _ => hmono w) (fun w n _ => ?_)
      (by simp [Command.Relies, hnew]) (by simp) (by simp)
    rw [htally w]
    simp [pending, Auth.uncounted]
  | counts storedNonce err attempts r' hincr hne =>
    obtain ⟨-, hnew, -⟩ := attemptsOf_incr h.counting hincr
    obtain ⟨hcounting, hget, hmono, htally⟩ := h.incr hincr
    exact h.afterAttempt hcounting hget (fun w _ _ => hmono w) (fun w _ _ => htally w)
      (fun _ _ => Int.le_of_eq hnew.symm) _ rfl
  | readsTtl storedNonce err attempts nonceTtl =>
    refine h.quiet h.counting (fun _ _ h => h) (fun _ _ _ => Int.le_refl _)
      (by simp [pending, Auth.uncounted]) ?_ (by simp) (by simp)
    simp only [List.mem_singleton, forall_eq]
    exact hrelies
  | setsExpiry storedNonce err attempts nonceTtl =>
    have hsame : ∀ w, attemptsOf (r.expire (attemptsKey dto.walletAddress)) w = attemptsOf r w :=
      fun w => attemptsOf_expire h.counting
    refine h.afterAttempt (h.counting.expire _) (fun w => ?_)
      (fun w _ _ => Int.le_of_eq (hsame w).symm) (by simp [hsame, pending, Auth.uncounted]) ?_ _ rfl
    · exact Redis.get_congr (Redis.expire_of_ne (nonceKey_ne_attemptsKey w _))
    · intro n hn
      rw [hsame]
      exact hrelies n hn
  | invalidates storedNonce =>
    have hsame : ∀ w, attemptsOf (r.del (nonceKey dto.walletAddress)) w = attemptsOf r w := fun w =>
      attemptsOf_congr (Redis.del_of_ne (nonceKey_ne_attemptsKey _ w).symm)
    refine h.move (h.counting.del _) (fun _ _ => Redis.get_of_get_del)
      (fun w _ _ => Int.le_of_eq (hsame w).symm) ?_ (by simp) ?_ ?_
    · intro w n _
      cases r.get (nonceKey dto.walletAddress) <;>
        simp [hsame, pending, Auth.uncounted, failedChecks, isFailedCheck]
    · intro n hn
      cases hget : r.get (nonceKey dto.walletAddress) <;>
        simp [hget, failedChecks, isFailedCheck] at hn
    · cases hget : r.get (nonceKey dto.walletAddress) with
      | none => simpa using h.exact.2
      | some n =>
        refine h.exact.2.snoc ?_
        have htally := h.tally _ _ hget
        have hdue : (max : ℤ) ≤ attemptsOf r dto.walletAddress := hrelies n hget
        simp only [LockedOut] at htally ⊢
        omega
  | forgets storedNonce => exact h.clear (fun _ h => h) ⟨fun _ => rfl, fun _ => trivial⟩

/-! ### Around the requests -/

section Outside

variable {r : Redis} {running : List Request} {log : List Observed} {w : WalletAddress}

theorem Tallied.arrive (h : Tallied max ⟨r, running, log⟩) (dto : VerifyWalletDto) :
    Tallied max ⟨r, [⟨dto, .lookup⟩] ++ running, log ++ []⟩ := by
  have hpending : ∀ w, pending w ([⟨dto, .lookup⟩] ++ running) = pending w running := by
    intro w
    simp [pending, uncounted]
  rw [List.append_nil]
  refine ⟨h.counting, fun w n hn => ?_, fun q hq n hn => ?_, h.known, h.exact⟩
  · rw [hpending]
    exact h.tally w n hn
  · rcases List.mem_append.mp hq with hq | hq
    · obtain rfl := List.mem_singleton.mp hq
      trivial
    · exact h.relies q hq n hn

/-- A nonce is issued to a wallet nobody has attempts of. -/
theorem Tallied.issue (h : Tallied max ⟨r, running, log⟩) {n : String}
    (hnew : n ∉ issuedNonces log) (hnone : r.entries (attemptsKey w) = none)
    (huntouching : ∀ q ∈ running, q.dto.walletAddress = w → untouching q = true) :
    Tallied max ⟨r.setEx (nonceKey w) n, [] ++ running, log ++ [.issued w n]⟩ := by
  have hsame : ∀ w', attemptsOf (r.setEx (nonceKey w) n) w' = attemptsOf r w' := fun w' =>
    attemptsOf_congr (Redis.setEx_of_ne (nonceKey_ne_attemptsKey w w').symm)
  have hfailed : ∀ m, failedChecks m (log ++ [.issued w n]) = failedChecks m log := by
    intro m
    simp [failedChecks, isFailedCheck]
  refine ⟨h.counting.congr fun w' => Redis.setEx_of_ne (nonceKey_ne_attemptsKey w w').symm,
    fun w' m hm => ?_, fun q hq m hm => ?_, fun m hm => ?_, fun m => ?_, ?_⟩
  · rw [hfailed, hsame, List.nil_append]
    by_cases hw : w' = w
    · subst hw
      rw [Redis.get_setEx_self] at hm
      obtain rfl := Option.some.inj hm
      have hzero : failedChecks n log = 0 := by_contra fun hne => hnew (h.known n hne)
      have hpending : pending w' running = 0 := by
        refine List.countP_eq_zero.mpr fun q hq hcount => ?_
        simp only [uncounted, Bool.and_eq_true, decide_eq_true_eq] at hcount
        have huntouched := huntouching q hq hcount.1
        cases hnext : q.next <;> simp_all [untouching]
      rw [hzero, hpending, attemptsOf_eq_zero hnone]
      rfl
    · rw [Redis.get_congr (Redis.setEx_of_ne fun h => hw (nonceKey_inj h))] at hm
      exact h.tally w' m hm
  · rw [List.nil_append] at hq
    by_cases hw : q.dto.walletAddress = w
    · have huntouched := huntouching q hq hw
      cases hnext : q.next <;> simp_all [untouching, Command.Relies]
    · rw [Redis.get_congr (Redis.setEx_of_ne fun h => hw (nonceKey_inj h))] at hm
      exact (h.relies q hq m hm).mono (Int.le_of_eq (hsame _).symm)
  · rw [hfailed] at hm
    rw [issuedNonces_append]
    exact List.mem_append_left _ (h.known m hm)
  · rw [hfailed]
    exact h.exact.1 m
  · exact h.exact.2.snoc trivial

/-- A key goes while its wallet has no nonce left. -/
theorem Tallied.expire (h : Tallied max ⟨r, running, log⟩) {key : String}
    (hkey : ∀ w n, (r.del key).get (nonceKey w) = some n → attemptsKey w ≠ key) :
    Tallied max ⟨r.del key, [] ++ running, log ++ []⟩ := by
  have hsame : ∀ w n, (r.del key).get (nonceKey w) = some n →
      attemptsOf (r.del key) w = attemptsOf r w := fun w n hn =>
    attemptsOf_congr (Redis.del_of_ne (hkey w n hn))
  rw [List.append_nil, List.nil_append]
  refine ⟨h.counting.del key, fun w n hn => ?_, fun q hq n hn => ?_, h.known, h.exact⟩
  · rw [hsame w n hn]
    exact h.tally w n (Redis.get_of_get_del hn)
  · exact (h.relies q hq n (Redis.get_of_get_del hn)).mono (Int.le_of_eq (hsame _ n hn).symm)

end Outside

/-- In an orderly run every nonce that is stored is tallied. -/
theorem tallied_of_orderly {P : Pool Redis Request Observed}
    (h : Reaches (rules scheme max) (Orderly scheme max) start P)
    (hdistinct : (issuedNonces P.log).Nodup) : Tallied max P := by
  refine h.invariant_along (I := fun P => (issuedNonces P.log).Nodup → Tallied max P) ?_ ?_ ?_
    hdistinct
  · intro r before q after log x r' ps seen hreach hI horderly hstep hlog
    have hlog' := nodup_of_append hlog
    have hreachable : Reachable scheme max ⟨r, before ++ q :: after, log⟩ :=
      hreach.mono fun _ _ _ => trivial
    exact (moves_of_step hstep).tallied (hI hlog') hreachable.sound hlog' horderly
  · intro r running log e r' ps seen _ hI horderly hout hlog
    have hI := hI (nodup_of_append hlog)
    rcases outside_cases hout with ⟨dto, -, ho⟩ | ⟨walletAddress, w, nonce, ⟨rfl, hw⟩, ho⟩ |
      ⟨w, -, ho⟩ | ⟨w, rfl, ho⟩
    · cases ho
      exact hI.arrive dto
    · cases ho
      obtain ⟨hnone, huntouching⟩ := horderly w hw
      refine hI.issue (fun hmem => ?_) hnone huntouching
      rw [issuedNonces_append, List.nodup_append] at hlog
      exact hlog.2.2 nonce hmem nonce (by simp [issuedNonces, issuances]) rfl
    · cases ho
      exact hI.expire fun w' _ _ => (nonceKey_ne_attemptsKey w w').symm
    · cases ho
      refine hI.expire fun w' n hn hkey => ?_
      obtain rfl := attemptsKey_inj hkey
      have hnone : r.get (nonceKey w') = none := horderly
      rw [Redis.get_of_get_del hn] at hnone
      cases hnone
  · intro _
    refine ⟨fun w e he => ?_, fun w n hn => ?_, ?_, fun n hn => ?_, fun n => ?_, preceded_nil⟩
    · simp [start, Redis.empty] at he
    · simp [start] at hn
    · simp [start]
    · simp [start, failedChecks] at hn
    · simp [start, failedChecks]

/-- **What the lockout guarantees.** In an orderly run at most the configured number of checks fail
against a nonce, and no nonce is locked out before that many have. -/
theorem lockout_exact (raw : Setting) {P : Pool Redis Request Observed}
    (h : Reaches (rules scheme (maxNonceAttempts raw)) (Orderly scheme (maxNonceAttempts raw))
      start P)
    (hdistinct : (issuedNonces P.log).Nodup) : LockoutExact (maxNonceAttempts raw) P.log :=
  (tallied_of_orderly h hdistinct).exact

/-! ### Runs, orderly and not -/

def firstNonce : String := "AAAAAAAAAAAAAAAAAAAAAAAAAAAAAAAA"
def secondNonce : String := "BBBBBBBBBBBBBBBBBBBBBBBBBBBBBBBB"

/-- A request of the wallet with a signature that is too short. -/
def badDto (nonce : String) : VerifyWalletDto := ⟨sampleWallet, nonce, "AAAA"⟩

/-- A request comes in and asks Redis `n` commands. -/
def attempt (nonce : String) (n : ℕ) : List (Act Reply Arrival) :=
  .outside (.verify (badDto nonce)) :: List.replicate n (.step 0 (.served 120))

/-- Two attempts against a nonce where two are allowed. -/
def orderlyRun : List (Act Reply Arrival) :=
  .outside (.issue sampleWallet.text firstNonce) :: attempt firstNonce 4 ++ attempt secondNonce 4

theorem lockout_exact_sample :
    ∃ P : Pool Redis Request Observed,
      P.log = [.issued sampleWallet firstNonce, .checkFailed sampleWallet firstNonce,
        .answered (badDto firstNonce)
          (.error (unauthorized .signatureInvalid "Signature is malformed")),
        .checkFailed sampleWallet firstNonce, .invalidated sampleWallet firstNonce,
        .answered (badDto secondNonce) (.error tooManyAttempts)] ∧
      LockoutExact 2 P.log := by
  have hrun : ((rules sampleScheme (maxNonceAttempts (.text "2"))).run start orderlyRun).map
      (·.log) = some _ := rfl
  obtain ⟨P, hP, hlog⟩ := Option.map_eq_some_iff.mp hrun
  exact ⟨P, hlog, lockout_exact (.text "2") (reaches_of_run hP (by decide))
    (hlog ▸ by decide)⟩

/-- An attempt against a nonce, a second nonce and an attempt against that. -/
def carryingRun : List (Act Reply Arrival) :=
  .outside (.issue sampleWallet.text firstNonce) :: attempt firstNonce 4 ++
    .outside (.issue sampleWallet.text secondNonce) :: attempt secondNonce 3

/-- Where two attempts are allowed, one against a nonce and one against the next lock the next
one out. -/
theorem lockout_carries_over :
    ¬ ∀ P, Reachable sampleScheme (maxNonceAttempts (.text "2")) P → (issuedNonces P.log).Nodup →
      LockoutExact (maxNonceAttempts (.text "2")) P.log := by
  intro h
  have hrun : ((rules sampleScheme (maxNonceAttempts (.text "2"))).run start carryingRun).map
      (·.log) = some _ := rfl
  obtain ⟨P, hP, hlog⟩ := Option.map_eq_some_iff.mp hrun
  have hreach := reaches_of_run hP (along_of_forall (fun _ _ _ => trivial) _)
  have hdue := (h P hreach (hlog ▸ by decide)).2 _ (.invalidated sampleWallet secondNonce) [] hlog
  exact absurd hdue (by decide : ¬ maxNonceAttempts (.text "2") ≤ failedChecks secondNonce _)

/-- Three requests look a nonce up before any is counted. -/
def crowdedRun : List (Act Reply Arrival) :=
  .outside (.issue sampleWallet.text firstNonce) ::
    (List.replicate 3 (.outside (.verify (badDto firstNonce))) ++
      (List.range 3).map fun i => .step i (.served 120))

/-- Three checks fail against a nonce where two are allowed. -/
theorem lockout_exceeded :
    ∃ P, Reachable sampleScheme (maxNonceAttempts (.text "2")) P ∧ (issuedNonces P.log).Nodup ∧
      maxNonceAttempts (.text "2") < failedChecks firstNonce P.log := by
  have hrun : ((rules sampleScheme (maxNonceAttempts (.text "2"))).run start crowdedRun).map
      (fun P => decide ((issuedNonces P.log).Nodup ∧
        maxNonceAttempts (.text "2") < failedChecks firstNonce P.log)) = some true := by
    decide +kernel
  obtain ⟨P, hP, hlog⟩ := Option.map_eq_some_iff.mp hrun
  obtain ⟨hnodup, hlt⟩ := of_decide_eq_true hlog
  exact ⟨P, reaches_of_run hP (along_of_forall (fun _ _ _ => trivial) _), hnodup, hlt⟩

end Swyft.Auth
