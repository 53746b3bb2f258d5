import Swyft.Auth.Steps
import Mathlib.Data.List.Nodup

/-!
# A nonce buys one token

A token goes to a request that found its nonce under its own wallet's key, had the signature
verified and then consumed the nonce. Two things carry the proof. A nonce that is stored has been
issued to the wallet it is stored for, which every step keeps. And a nonce is spent by the
request that consumes it: while it is stored nobody has spent it, and it is never stored again,
as no two nonces issued are the same.

## Main results

* `tokens_justified` — a token is for the wallet its nonce was issued to, after a verified
  signature of it
* `nonces_single_use` — and a nonce buys one at most
-/

namespace Swyft.Auth

open Interleaving

variable {scheme : SignatureScheme} {max : ℕ}

/-- The wallets nonces were issued to, and the nonces, in order. -/
def issuances (log : List Observed) : List (WalletAddress × String) :=
  log.filterMap fun
    | .issued w nonce => some (w, nonce)
    | _ => none

/-- The nonces issued, in order. -/
def issuedNonces (log : List Observed) : List String := (issuances log).map (·.2)

theorem issuedNonces_append (log seen : List Observed) :
    issuedNonces (log ++ seen) = issuedNonces log ++ issuedNonces seen := by
  rw [issuedNonces, issuances, List.filterMap_append, List.map_append, issuedNonces, issuedNonces,
    issuances, issuances]

theorem mem_issuances {w : WalletAddress} {n : String} {log : List Observed}
    (h : .issued w n ∈ log) : (w, n) ∈ issuances log :=
  List.mem_filterMap.mpr ⟨_, h, rfl⟩

theorem mem_issuedNonces {w : WalletAddress} {n : String} {log : List Observed}
    (h : .issued w n ∈ log) : n ∈ issuedNonces log :=
  List.mem_map_of_mem (mem_issuances h)

/-- No nonce is issued to two wallets, if no two issued are the same. -/
theorem wallet_unique {log : List Observed} (h : (issuedNonces log).Nodup) {w w' : WalletAddress}
    {n : String} (hw : .issued w n ∈ log) (hw' : .issued w' n ∈ log) : w = w' :=
  (Prod.mk.inj (List.inj_on_of_nodup_map h (mem_issuances hw) (mem_issuances hw') rfl)).1

theorem nodup_of_append {log seen : List Observed} (h : (issuedNonces (log ++ seen)).Nodup) :
    (issuedNonces log).Nodup := by
  rw [issuedNonces_append] at h
  exact h.of_append_left

/-! ### Whose token -/

/-- A token observed is one for the wallet of its request, to which the nonce was issued before,
and after the signature of the request was verified. -/
def TokenJustified (scheme : SignatureScheme) (log : List Observed) : Observed → Prop
  | .answered dto (.ok token) =>
    token = issueJwt dto.walletAddress ∧ .issued dto.walletAddress dto.nonce ∈ log ∧
      .verified dto ∈ log ∧ Signed scheme dto
  | _ => True

/-- Stored nonces were issued to the wallets they are stored for. -/
structure Sound (scheme : SignatureScheme) (r : Redis) (log : List Observed) : Prop where
  stored : ∀ w n, r.get (nonceKey w) = some n → .issued w n ∈ log
  tokens : Preceded (TokenJustified scheme) log

/-- A request that has passed the check was checked against a nonce issued to its wallet. -/
def PassedCheck (scheme : SignatureScheme) (log : List Observed) (q : Request) : Prop :=
  q.next = .consume ∨ q.next = .clearAttempts →
    .issued q.dto.walletAddress q.dto.nonce ∈ log ∧ .verified q.dto ∈ log ∧ Signed scheme q.dto

theorem PassedCheck.append {log : List Observed} {q : Request} (h : PassedCheck scheme log q)
    (seen : List Observed) : PassedCheck scheme (log ++ seen) q := by
  intro hq
  obtain ⟨hissued, hverified, hsigned⟩ := h hq
  exact ⟨List.mem_append_left _ hissued, List.mem_append_left _ hverified, hsigned⟩

namespace Sound

variable {r r' : Redis} {log : List Observed}

/-- Nothing new is stored and nothing is observed. -/
theorem quiet (h : Sound scheme r log)
    (hget : ∀ w n, r'.get (nonceKey w) = some n → r.get (nonceKey w) = some n) :
    Sound scheme r' (log ++ []) := by
  rw [List.append_nil]
  exact ⟨fun w n hn => h.stored w n (hget w n hn), h.tokens⟩

/-- Nothing new is stored and what is observed justifies itself. -/
theorem observe (h : Sound scheme r log)
    (hget : ∀ w n, r'.get (nonceKey w) = some n → r.get (nonceKey w) = some n) {x : Observed}
    (hx : TokenJustified scheme log x) : Sound scheme r' (log ++ [x]) :=
  ⟨fun w n hn => List.mem_append_left _ (h.stored w n (hget w n hn)), h.tokens.snoc hx⟩

/-- A nonce is issued. -/
theorem issue (h : Sound scheme r log) (w : WalletAddress) (n : String) :
    Sound scheme (r.setEx (nonceKey w) n) (log ++ [.issued w n]) := by
  refine ⟨fun w' n' hn => ?_, h.tokens.snoc trivial⟩
  by_cases hw : w' = w
  · subst hw
    rw [Redis.get_setEx_self] at hn
    obtain rfl := Option.some.inj hn
    exact List.mem_append_right _ (.head _)
  · rw [Redis.get_congr (Redis.setEx_of_ne fun h => hw (nonceKey_inj h))] at hn
    exact List.mem_append_left _ (h.stored w' n' hn)

end Sound

/-- A move keeps a state sound, and what it leaves has passed its check. -/
theorem Moves.sound {r : Redis} {dto : VerifyWalletDto} {x : Reply} {c : Command}
    {log : List Observed} {o : Outcome} (hmove : Moves scheme max r dto x c o)
    (hs : Sound scheme r log)
    (hq : PassedCheck scheme log ⟨dto, c⟩) :
    Sound scheme o.1 (log ++ o.2.2) ∧ ∀ q ∈ o.2.1, PassedCheck scheme (log ++ o.2.2) q := by
  have hafter : ∀ (r' : Redis) (storedNonce : String) (err : HttpException) (attempts : ℤ),
      (∀ w, r'.get (nonceKey w) = r.get (nonceKey w)) →
      Sound scheme (afterAttempt max r' dto storedNonce err attempts).1
          (log ++ (afterAttempt max r' dto storedNonce err attempts).2.2) ∧
        ∀ q ∈ (afterAttempt max r' dto storedNonce err attempts).2.1,
          PassedCheck scheme (log ++ (afterAttempt max r' dto storedNonce err attempts).2.2) q := by
    intro r' storedNonce err attempts hr
    have hget : ∀ w n, r'.get (nonceKey w) = some n → r.get (nonceKey w) = some n := by
      intro w n hn
      rwa [hr] at hn
    rcases afterAttempt_cases max r' dto storedNonce err attempts with ⟨-, h⟩ | ⟨-, h⟩
    · rw [h]
      exact ⟨hs.quiet hget, by simp [PassedCheck]⟩
    · rw [h]
      exact ⟨hs.observe hget trivial, by simp [Auth.throws]⟩
  cases hmove with
  | throws c err => exact ⟨hs.observe (fun _ _ h => h) trivial, by simp [Auth.throws]⟩
  | uncounted storedNonce err =>
    exact ⟨hs.observe (fun _ _ h => h) trivial, by simp [Auth.throws]⟩
  | failsCheck storedNonce err hget =>
    exact ⟨hs.observe (fun _ _ h => h) trivial, by simp [PassedCheck]⟩
  | passesCheck hget hsigned =>
    refine ⟨hs.observe (fun _ _ h => h) trivial, ?_⟩
    simp only [List.mem_singleton, forall_eq]
    intro _
    exact ⟨List.mem_append_left _ (hs.stored _ _ hget), List.mem_append_right _ (.head _), hsigned⟩
  | consumes hget =>
    refine ⟨hs.quiet fun _ _ => Redis.get_of_get_del, ?_⟩
    simp only [List.mem_singleton, forall_eq]
    intro _
    exact (hq.append []) (.inl rfl)
  | answers =>
    refine ⟨hs.observe (fun _ _ => Redis.get_of_get_del) ?_, by simp⟩
    exact ⟨rfl, hq (.inr rfl)⟩
  | countsFirst storedNonce err r' hincr =>
    refine ⟨hs.quiet fun w n hn => ?_, by simp [PassedCheck]⟩
    rwa [Redis.get_congr (Redis.incr_of_ne hincr (nonceKey_ne_attemptsKey w _))] at hn
  | counts storedNonce err attempts r' hincr =>
    exact hafter r' _ _ _ fun w =>
      Redis.get_congr (Redis.incr_of_ne hincr (nonceKey_ne_attemptsKey w _))
  | readsTtl storedNonce err attempts nonceTtl =>
    exact ⟨hs.quiet fun _ _ h => h, by simp [PassedCheck]⟩
  | setsExpiry storedNonce err attempts nonceTtl =>
    exact hafter _ _ _ _ fun w =>
      Redis.get_congr (Redis.expire_of_ne (nonceKey_ne_attemptsKey w _))
  | invalidates storedNonce =>
    refine ⟨?_, by simp [PassedCheck]⟩
    cases hget : r.get (nonceKey dto.walletAddress) with
    | none => exact hs.quiet fun _ _ => Redis.get_of_get_del
    | some n => exact hs.observe (fun _ _ => Redis.get_of_get_del) trivial
  | forgets storedNonce => exact ⟨hs.observe (fun _ _ => Redis.get_of_get_del) trivial, by simp⟩

/-- What happens around the requests keeps a state sound. -/
theorem outside_sound {r : Redis} {log : List Observed} {e : Arrival} {o : Outcome}
    (h : (rules scheme max).outside r e = some o) (hs : Sound scheme r log) :
    Sound scheme o.1 (log ++ o.2.2) ∧ ∀ q ∈ o.2.1, PassedCheck scheme (log ++ o.2.2) q := by
  rcases outside_cases h with ⟨dto, -, rfl⟩ | ⟨_, w, nonce, -, rfl⟩ | ⟨w, -, rfl⟩ | ⟨w, -, rfl⟩
  · exact ⟨hs.quiet fun _ _ h => h, by simp [PassedCheck]⟩
  · exact ⟨hs.issue w nonce, by simp⟩
  · exact ⟨hs.quiet fun _ _ => Redis.get_of_get_del, by simp⟩
  · exact ⟨hs.quiet fun _ _ => Redis.get_of_get_del, by simp⟩

/-- Every reachable state is sound. -/
theorem Reachable.sound {P : Pool Redis Request Observed} (h : Reachable scheme max P) :
    Sound scheme P.shared P.log := by
  have hstart : Sound scheme start.shared start.log :=
    ⟨fun w n hn => by simp [start] at hn, preceded_nil⟩
  refine (h.assertions (I := Sound scheme) (J := fun _ => PassedCheck scheme) ?_ ?_ hstart
    (by simp [start])).1
  · intro r q log x r' ps seen hs hq hstep
    obtain ⟨hs', hps⟩ := (moves_of_step hstep).sound hs hq
    exact ⟨hs', hps, fun _ h => h.append _⟩
  · intro r log e r' ps seen hs hout
    obtain ⟨hs', hps⟩ := outside_sound hout hs
    exact ⟨hs', hps, fun _ h => h.append _⟩

/-- A token is for the wallet its nonce was issued to, after a verified signature of it. -/
theorem tokens_justified {P : Pool Redis Request Observed} (h : Reachable scheme max P) :
    Preceded (TokenJustified scheme) P.log := h.sound.tokens

/-! ### One token -/

/-- A token for a request that carried the nonce. -/
def isToken (n : String) : Observed → Bool
  | .answered dto (.ok _) => dto.nonce = n
  | _ => false

/-- The request has consumed the nonce and not yet answered. -/
def holds (n : String) (q : Request) : Bool := q.next = .clearAttempts ∧ q.dto.nonce = n

/-- How often a nonce was consumed: the tokens it bought, and those it is about to buy. -/
def spent (n : String) (P : Pool Redis Request Observed) : ℕ :=
  P.log.countP (isToken n) + P.running.countP (holds n)

/-- No nonce is spent twice, and none that is stored is spent. -/
structure Unspent (P : Pool Redis Request Observed) : Prop where
  stored : ∀ w n, P.shared.get (nonceKey w) = some n → .issued w n ∈ P.log ∧ spent n P = 0
  once : ∀ n, spent n P ≤ 1
  known : ∀ n, spent n P ≠ 0 → n ∈ issuedNonces P.log

namespace Unspent

variable {r r' : Redis} {log seen : List Observed} {before after ps : List Request} {q : Request}

/-- A step that consumes nothing and stores nothing. A request that ends may leave its nonce
without a token. -/
theorem quiet (h : Unspent ⟨r, before ++ q :: after, log⟩)
    (hget : ∀ w n, r'.get (nonceKey w) = some n → r.get (nonceKey w) = some n)
    (hspent : ∀ n, seen.countP (isToken n) + ps.countP (holds n) ≤ [q].countP (holds n)) :
    Unspent ⟨r', before ++ ps ++ after, log ++ seen⟩ := by
  have hle : ∀ n, spent n ⟨r', before ++ ps ++ after, log ++ seen⟩ ≤
      spent n ⟨r, before ++ q :: after, log⟩ := by
    intro n
    have hn := hspent n
    simp only [spent, List.countP_append, List.countP_cons, List.countP_nil] at hn ⊢
    omega
  refine ⟨fun w n hn => ?_, fun n => Nat.le_trans (hle n) (h.once n), fun n hn => ?_⟩
  · obtain ⟨hissued, hzero⟩ := h.stored w n (hget w n hn)
    exact ⟨List.mem_append_left _ hissued, Nat.le_zero.mp (hzero ▸ hle n)⟩
  · have hbefore : spent n ⟨r, before ++ q :: after, log⟩ ≠ 0 := fun h0 =>
      hn (Nat.le_zero.mp (h0 ▸ hle n))
    rw [issuedNonces_append]
    exact List.mem_append_left _ (h.known n hbefore)

/-- A request consumes its nonce. -/
theorem consume {dto : VerifyWalletDto}
    (h : Unspent ⟨r, before ++ ⟨dto, .consume⟩ :: after, log⟩) (hlog : (issuedNonces log).Nodup)
    (hget : r.get (nonceKey dto.walletAddress) = some dto.nonce) :
    Unspent ⟨r.del (nonceKey dto.walletAddress), before ++ [⟨dto, .clearAttempts⟩] ++ after,
      log ++ []⟩ := by
  obtain ⟨hissued, hzero⟩ := h.stored _ _ hget
  have hspent : ∀ n,
      spent n ⟨r.del (nonceKey dto.walletAddress), before ++ [⟨dto, .clearAttempts⟩] ++ after,
        log ++ []⟩ =
      spent n ⟨r, before ++ ⟨dto, .consume⟩ :: after, log⟩ + if dto.nonce = n then 1 else 0 := by
    intro n
    simp only [spent, List.countP_append, List.countP_cons, List.countP_nil, holds, true_and,
      reduceCtorEq, false_and, decide_false, Bool.false_eq_true, if_false, decide_eq_true_eq]
    omega
  refine ⟨fun w n hn => ?_, fun n => ?_, fun n hn => ?_⟩
  · obtain ⟨hissued', hzero'⟩ := h.stored w n (Redis.get_of_get_del hn)
    refine ⟨List.mem_append_left _ hissued', ?_⟩
    rw [hspent, hzero', if_neg]
    rintro rfl
    obtain rfl := wallet_unique hlog hissued hissued'
    rw [Redis.get_del_self] at hn
    cases hn
  · rw [hspent]
    split
    · rename_i heq
      exact Nat.le_of_eq (by rw [← heq, hzero])
    · exact h.once n
  · rw [List.append_nil]
    by_cases heq : dto.nonce = n
    · exact heq ▸ mem_issuedNonces hissued
    · rw [hspent, if_neg heq] at hn
      exact h.known n hn

/-- A nonce that was never issued before is issued. -/
theorem issue {running : List Request} (h : Unspent ⟨r, running, log⟩) {w : WalletAddress}
    {n : String} (hnew : n ∉ issuedNonces log) :
    Unspent ⟨r.setEx (nonceKey w) n, running, log ++ [.issued w n]⟩ := by
  have hsame : ∀ m, spent m ⟨r.setEx (nonceKey w) n, running, log ++ [.issued w n]⟩ =
      spent m ⟨r, running, log⟩ := by
    intro m
    simp [spent, isToken]
  refine ⟨fun w' n' hn => ?_, fun m => hsame m ▸ h.once m, fun m hm => ?_⟩
  · rw [hsame]
    by_cases hw : w' = w
    · subst hw
      rw [Redis.get_setEx_self] at hn
      obtain rfl := Option.some.inj hn
      exact ⟨List.mem_append_right _ (.head _), by_contra fun hne => hnew (h.known n hne)⟩
    · rw [Redis.get_congr (Redis.setEx_of_ne fun h => hw (nonceKey_inj h))] at hn
      obtain ⟨hissued, hzero⟩ := h.stored w' n' hn
      exact ⟨List.mem_append_left _ hissued, hzero⟩
  · rw [hsame] at hm
    rw [issuedNonces_append]
    exact List.mem_append_left _ (h.known m hm)

/-- A request comes in or a key expires. -/
theorem arrive {running ps : List Request} (h : Unspent ⟨r, running, log⟩)
    (hget : ∀ w n, r'.get (nonceKey w) = some n → r.get (nonceKey w) = some n)
    (hps : ∀ n, ps.countP (holds n) = 0) : Unspent ⟨r', ps ++ running, log ++ []⟩ := by
  have hsame : ∀ n, spent n ⟨r', ps ++ running, log ++ []⟩ = spent n ⟨r, running, log⟩ := by
    intro n
    simp [spent, hps]
  rw [List.append_nil] at hsame ⊢
  refine ⟨fun w n hn => ?_, fun n => hsame n ▸ h.once n, fun n hn => h.known n (hsame n ▸ hn)⟩
  rw [hsame]
  exact h.stored w n (hget w n hn)

end Unspent

/-- A move spends no nonce twice. -/
theorem Moves.unspent {r : Redis} {dto : VerifyWalletDto} {x : Reply} {c : Command}
    {log : List Observed} {before after : List Request} {o : Outcome}
    (hmove : Moves scheme max r dto x c o)
    (h : Unspent ⟨r, before ++ ⟨dto, c⟩ :: after, log⟩) (hlog : (issuedNonces log).Nodup) :
    Unspent ⟨o.1, before ++ o.2.1 ++ after, log ++ o.2.2⟩ := by
  have hafter : ∀ (r' : Redis) (storedNonce : String) (err : HttpException) (attempts : ℤ),
      (∀ w, r'.get (nonceKey w) = r.get (nonceKey w)) →
      ∀ o, o = afterAttempt max r' dto storedNonce err attempts →
        Unspent ⟨o.1, before ++ o.2.1 ++ after, log ++ o.2.2⟩ := by
    rintro r' storedNonce err attempts hr o rfl
    have hget : ∀ w n, r'.get (nonceKey w) = some n → r.get (nonceKey w) = some n := by
      intro w n hn
      rwa [hr] at hn
    rcases afterAttempt_cases max r' dto storedNonce err attempts with ⟨-, h'⟩ | ⟨-, h'⟩
    · rw [h']
      exact h.quiet hget fun n => by simp [holds]
    · rw [h']
      exact h.quiet hget fun n => by simp [Auth.throws, isToken]
  cases hmove with
  | throws c err => exact h.quiet (fun _ _ h => h) fun n => by simp [Auth.throws, isToken]
  | uncounted storedNonce err =>
    exact h.quiet (fun _ _ h => h) fun n => by simp [Auth.throws, isToken]
  | failsCheck storedNonce err hget =>
    exact h.quiet (fun _ _ h => h) fun n => by simp [holds, isToken]
  | passesCheck hget hsigned =>
    exact h.quiet (fun _ _ h => h) fun n => by simp [holds, isToken]
  | consumes hget => exact h.consume hlog hget
  | answers =>
    exact h.quiet (fun _ _ => Redis.get_of_get_del) fun n => by simp [holds, isToken]
  | countsFirst storedNonce err r' hincr =>
    refine h.quiet (fun w n hn => ?_) fun n => by simp [holds]
    rwa [Redis.get_congr (Redis.incr_of_ne hincr (nonceKey_ne_attemptsKey w _))] at hn
  | counts storedNonce err attempts r' hincr =>
    refine hafter r' storedNonce err attempts (fun w => ?_) _ rfl
    exact Redis.get_congr (Redis.incr_of_ne hincr (nonceKey_ne_attemptsKey w _))
  | readsTtl storedNonce err attempts nonceTtl =>
    exact h.quiet (fun _ _ h => h) fun n => by simp [holds]
  | setsExpiry storedNonce err attempts nonceTtl =>
    refine hafter _ storedNonce err attempts (fun w => ?_) _ rfl
    exact Redis.get_congr (Redis.expire_of_ne (nonceKey_ne_attemptsKey w _))
  | invalidates storedNonce =>
    refine h.quiet (fun _ _ => Redis.get_of_get_del) fun n => ?_
    cases r.get (nonceKey dto.walletAddress) <;> simp [holds, isToken]
  | forgets storedNonce =>
    exact h.quiet (fun _ _ => Redis.get_of_get_del) fun n => by simp [holds, isToken]

/-- In a reachable state no nonce is spent twice, if no two issued are the same. -/
theorem Reachable.unspent {P : Pool Redis Request Observed} (h : Reachable scheme max P)
    (hdistinct : (issuedNonces P.log).Nodup) : Unspent P := by
  refine h.invariant (I := fun P => (issuedNonces P.log).Nodup → Unspent P) ?_ ?_ ?_ hdistinct
  · intro r before q after log x r' ps seen hI _ hstep hlog
    have hlog' := nodup_of_append hlog
    exact (moves_of_step hstep).unspent (hI hlog') hlog'
  · intro r running log e r' ps seen hI _ hout hlog
    have hI := hI (nodup_of_append hlog)
    rcases outside_cases hout with
      ⟨dto, -, ho⟩ | ⟨_, w, nonce, -, ho⟩ | ⟨w, -, ho⟩ | ⟨w, -, ho⟩
    · cases ho
      exact hI.arrive (fun _ _ h => h) fun n => by simp [holds]
    · cases ho
      refine hI.issue fun hmem => ?_
      rw [issuedNonces_append, List.nodup_append] at hlog
      exact hlog.2.2 nonce hmem nonce (by simp [issuedNonces, issuances]) rfl
    · cases ho
      exact hI.arrive (fun _ _ => Redis.get_of_get_del) fun n => by simp
    · cases ho
      exact hI.arrive (fun _ _ => Redis.get_of_get_del) fun n => by simp
  · intro _
    exact ⟨fun w n hn => by simp [start] at hn, fun n => by simp [start, spent],
      fun n hn => by simp [start, spent] at hn⟩

/-- **Nonces are single-use.** Whatever requests run at once, a nonce buys one token at most; the
token is for the only wallet the nonce was issued to, and comes after the signature of exactly
that nonce by the wallet's key was verified. -/
theorem nonces_single_use (raw : Setting) {P : Pool Redis Request Observed}
    (h : Reachable scheme (maxNonceAttempts raw) P) (hdistinct : (issuedNonces P.log).Nodup) :
    (∀ n, P.log.countP (isToken n) ≤ 1) ∧
    ∀ pre dto token post, P.log = pre ++ .answered dto (.ok token) :: post →
      token = issueJwt dto.walletAddress ∧ .issued dto.walletAddress dto.nonce ∈ pre ∧
      (∀ w, .issued w dto.nonce ∈ P.log → w = dto.walletAddress) ∧
      .verified dto ∈ pre ∧ Signed scheme dto := by
  have hunspent := h.unspent hdistinct
  refine ⟨fun n => Nat.le_trans (Nat.le_add_right _ _) (hunspent.once n), ?_⟩
  intro pre dto token post hlog
  obtain ⟨htoken, hissued, hverified, hsigned⟩ := tokens_justified h pre _ post hlog
  refine ⟨htoken, hissued, fun w hw => wallet_unique hdistinct hw ?_, hverified, hsigned⟩
  rw [hlog]
  exact List.mem_append_left _ hissued

/-! ### A wallet, a nonce and its signature -/

def sampleWallet : WalletAddress :=
  ⟨"GDLH25JPK2NYGABSTOAWK6Z6WSCN3IAH2M5UBDLRHUS44NLAOYDG6WFV", by decide⟩

/-- The wallet's signature of `"eDd7UldXtJRCf4kBT5fXmSjzk40U61Hi"`. -/
def sampleSignature : ByteArray :=
  ⟨#[0, 141, 195, 76, 221, 86, 167, 87, 186, 250, 250, 253, 12, 168, 153, 7, 70, 106, 9, 168, 81,
    121, 178, 215, 255, 151, 26, 85, 171, 37, 115, 140, 50, 45, 225, 211, 242, 69, 35, 66, 113,
    219, 50, 104, 61, 171, 199, 110, 107, 200, 93, 87, 46, 220, 164, 170, 251, 154, 243, 177, 117,
    87, 1, 5]⟩

/-- The request of the wallet that signed its nonce. -/
def sampleDto : VerifyWalletDto where
  walletAddress := sampleWallet
  nonce := "eDd7UldXtJRCf4kBT5fXmSjzk40U61Hi"
  signature :=
    "AI3DTN1Wp1e6+vr9DKiZB0ZqCahRebLX/5caVaslc4wyLeHT8kUjQnHbMmg9q8dua8hdVy7cpKr7mvOxdVcBBQ=="

/-- Ed25519 as far as the one wallet and the one signature are concerned. -/
def sampleScheme : SignatureScheme where
  PublicKey := String
  fromPublicKey text := if text = sampleWallet.text then some text else none
  base64 text := if text = sampleDto.signature then sampleSignature else .empty
  verify _ message signature :=
    message.data = sampleDto.nonce.toUTF8.data && signature.data = sampleSignature.data

/-- Two requests with one signed nonce pass the check; the one that consumes the nonce first gets
the token. -/
def sampleRun : List (Act Reply Arrival) :=
  [.outside (.issue sampleWallet.text sampleDto.nonce), .outside (.verify sampleDto),
    .outside (.verify sampleDto), .step 0 (.served 0), .step 1 (.served 0), .step 1 (.served 0),
    .step 0 (.served 0), .step 0 (.served 0)]

theorem nonces_single_use_sample :
    ∃ P : Pool Redis Request Observed,
      P.log = [.issued sampleWallet sampleDto.nonce, .verified sampleDto, .verified sampleDto,
        .answered sampleDto (.error (unauthorized .nonceAlreadyUsed "Nonce has already been used")),
        .answered sampleDto (.ok (issueJwt sampleWallet))] ∧
      (∀ n, P.log.countP (isToken n) ≤ 1) ∧
      ∀ pre dto token post, P.log = pre ++ .answered dto (.ok token) :: post →
        token = issueJwt dto.walletAddress ∧ .issued dto.walletAddress dto.nonce ∈ pre ∧
        (∀ w, .issued w dto.nonce ∈ P.log → w = dto.walletAddress) ∧
        .verified dto ∈ pre ∧ Signed sampleScheme dto := by
  have hrun : ((rules sampleScheme (maxNonceAttempts .absent)).run start sampleRun).map (·.log) =
      some _ := rfl
  obtain ⟨P, hP, hlog⟩ := Option.map_eq_some_iff.mp hrun
  have hreach := reaches_of_run hP (along_of_forall (fun _ _ _ => trivial) _)
  exact ⟨P, hlog, nonces_single_use .absent hreach (hlog ▸ by decide)⟩

end Swyft.Auth
