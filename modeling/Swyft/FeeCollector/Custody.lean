import Swyft.FeeCollector.Model
import Swyft.Lib.Trace
import Mathlib.Algebra.BigOperators.Group.List.Basic
import Mathlib.Algebra.Ring.Int.Defs

/-!
# Custody of the fees

What a collector has on record in a token is what was deposited and not collected, and the token
contract keeps at least that much for it. Both contracts are custodians: a call that runs leaves
records and balances as they are, books a deposit that it was paid, or pays a record out and
clears it. The law follows from that alone.

## Main definitions

* `Contract` — what the law speaks of in a contract
* `Effect`, `Custodian` — the three things a call may do
* `CustodyLaw` — the law

## Main results

* `Custodian.law` — every run of a custodian obeys the law
* `custody_law` — both contracts do
-/

namespace Swyft.FeeCollector

open Checked

/-! ### The law -/

/-- A contract, as far as custody goes. -/
structure Contract (σ : Type) where
  admin : σ → Option Address
  feeOn : σ → Bool
  authorizedPool : σ → Address → Bool
  recorded : σ → Address → ℤ
  exec : World σ → Invocation → Res (World σ)

/-- The newer contract. -/
def current : Contract Storage :=
  ⟨(·.admin), Storage.isFeeOn, Storage.isAuthorizedPool, Storage.getBalance, exec⟩

/-- The older contract. -/
def legacy (overflowChecks : Bool) : Contract Legacy.Storage :=
  ⟨(·.admin), Legacy.readFeeSwitch, Legacy.readAuthorizedPool, Legacy.readFeeBalance,
    Legacy.exec overflowChecks⟩

variable {σ : Type}

/-- Whether a call is a deposit by a pool that is authorised, with the switch on. -/
def Contract.admits (C : Contract σ) (w : World σ) : Call → Bool
  | .depositProtocolFees _ src _ => C.feeOn w.storage && C.authorizedPool w.storage src
  | _ => false

/-- A call, and whether it was admitted as a deposit when it was made. One that stops changes
nothing and is no step. -/
def Contract.step (C : Contract σ) (w : World σ) (i : Invocation) : Res (World σ × Bool) := do
  let w' ← C.exec w i
  pure (w', C.admits w i.call)

/-- What a call deposits in a token. -/
def Call.deposits (t : Address) : Call → ℤ
  | .depositProtocolFees token _ amount => if token = t then amount else 0
  | _ => 0

/-- Who makes a deposit. -/
def Call.depositor? : Call → Option Address
  | .depositProtocolFees _ src _ => some src
  | _ => none

/-- The sum of the admitted deposits in a token. -/
def deposited (t : Address) (ls : List (Invocation × Bool)) : ℤ :=
  (ls.map fun l => if l.2 then l.1.call.deposits t else 0).sum

/-- The sum of what was paid out in a token. -/
def World.collected (w : World σ) (t : Address) : ℤ :=
  ((w.transfers.filter fun x => x.token = t ∧ x.src = w.self).map (·.amount)).sum

/-- The law of custody, after the calls `ls`. -/
structure CustodyLaw (C : Contract σ) (w : World σ) (ls : List (Invocation × Bool)) : Prop where
  /-- What is on record was deposited and not collected. -/
  recorded : ∀ t, C.recorded w.storage t = deposited t ls - w.collected t
  /-- The token contract keeps as much. -/
  covered : ∀ t, C.recorded w.storage t ≤ w.tokens t w.self
  /-- The admin is paid what is on record, if the token contract accepts the transfer. -/
  pays : ∀ token dst auth, (∃ admin ∈ auth, C.admin w.storage = some admin) →
    0 < C.recorded w.storage token →
    w.tokens token dst + C.recorded w.storage token ≤ i128Max →
    ∃ w', C.exec w ⟨.collectProtocolFees token dst, auth, false⟩ = .ok w' ∧
      w'.transfers = w.transfers ++ [⟨token, w.self, dst, C.recorded w.storage token⟩]
  /-- No other token is touched. -/
  apart : ∀ token dst auth refuses w',
    C.exec w ⟨.collectProtocolFees token dst, auth, refuses⟩ = .ok w' → ∀ t ≠ token,
      w'.tokens t = w.tokens t ∧ C.recorded w'.storage t = C.recorded w.storage t

/-! ### Transfers -/

section Transfer

variable {w w' : World σ} {refuses : Bool} {token src dst : Address} {amount : ℤ}

/-- Everything a transfer that goes through does. -/
structure Paid (w : World σ) (token src dst : Address) (amount : ℤ) (w' : World σ) : Prop where
  nonneg : 0 ≤ amount
  self : w'.self = w.self
  storage : w'.storage = w.storage
  transfers : w'.transfers = w.transfers ++ [⟨token, src, dst, amount⟩]
  others : ∀ t ≠ token, w'.tokens t = w.tokens t
  fits : w'.tokens token dst ≤ i128Max
  credited : src ≠ dst → (w'.tokens token dst : ℤ) = w.tokens token dst + amount
  debited : (w.tokens token src : ℤ) - amount ≤ w'.tokens token src

theorem transfer_cases (h : w.transfer refuses token src dst amount = .ok w') :
    Paid w token src dst amount w' := by
  simp only [World.transfer, Tokens.transfer, bind_eq_ok, require_eq_ok, exists_const,
    pure_eq_ok] at h
  obtain ⟨-, tokens, ⟨hnonneg, hle, rfl⟩, hfits, rfl⟩ := h
  have hamount : ((amount.toNat : ℕ) : ℤ) = amount := Int.toNat_of_nonneg hnonneg
  refine ⟨hnonneg, rfl, rfl, rfl, fun t ht => ?_, hfits, fun hne => ?_, ?_⟩
  · funext x
    simp [Tokens.set_apply, ht]
  · simp [Tokens.set_apply, hne.symm, hamount]
  · by_cases hne : src = dst
    · subst hne
      simp only [Tokens.set_apply, and_self, if_true]
      omega
    · simp only [Tokens.set_apply, and_self, hne, and_false, if_true, if_false]
      omega

/-- A transfer that is covered goes through, if the token contract accepts it and the balance of
the receiver has room. -/
theorem transfer_ok (hnonneg : 0 ≤ amount) (hle : amount ≤ w.tokens token src)
    (hroom : w.tokens token dst + amount ≤ i128Max) :
    ∃ w', w.transfer false token src dst amount = .ok w' := by
  have hcovered : amount.toNat ≤ w.tokens token src := by omega
  simp only [World.transfer, Tokens.transfer, bind_eq_ok, require_eq_ok, exists_const, pure_eq_ok]
  refine ⟨_, trivial, _, ⟨hnonneg, hcovered, rfl⟩, ?_, rfl⟩
  by_cases hne : dst = src
  · subst hne
    simp only [Tokens.set_apply, and_self, if_true]
    omega
  · simp only [Tokens.set_apply, and_self, hne, and_false, if_true, if_false]
    omega

end Transfer

/-! ### Custodians -/

variable {C : Contract σ} {w w' : World σ}

/-- No record is negative, and the token contracts keep what is on record. -/
def Covered (C : Contract σ) (w : World σ) : Prop :=
  ∀ t, 0 ≤ C.recorded w.storage t ∧ C.recorded w.storage t ≤ w.tokens t w.self

/-- What a call that runs may do. -/
inductive Effect (C : Contract σ) (w : World σ) : Call → World σ → Prop
  /-- It leaves the records as they are and moves nothing. -/
  | still {call : Call} {s : σ} (hrecorded : C.recorded s = C.recorded w.storage)
      (hadmits : C.admits w call = false) : Effect C w call { w with storage := s }
  /-- It is paid a deposit and adds it to the record. -/
  | deposit {token src : Address} {amount : ℤ} {w₁ : World σ} {s : σ} (hne : src ≠ w.self)
      (hadmits : C.admits w (.depositProtocolFees token src amount) = true)
      (hpaid : Paid w token src w.self amount w₁)
      (hrecorded : C.recorded s = Function.update (C.recorded w.storage) token
        (C.recorded w.storage token + amount)) :
      Effect C w (.depositProtocolFees token src amount) { w₁ with storage := s }
  /-- It pays the record out and clears it. -/
  | collect {token dst : Address} {w₁ : World σ} {s : σ}
      (hpaid : Paid w token w.self dst (C.recorded w.storage token) w₁)
      (hrecorded : C.recorded s = Function.update (C.recorded w.storage) token 0) :
      Effect C w (.collectProtocolFees token dst) { w₁ with storage := s }

/-- What is asked of a contract. -/
structure Custodian (C : Contract σ) : Prop where
  effect : ∀ w i w', Covered C w → i.call.depositor? ≠ some w.self → C.exec w i = .ok w' →
    Effect C w i.call w'
  pays : ∀ w token dst auth, (∃ admin ∈ auth, C.admin w.storage = some admin) →
    0 < C.recorded w.storage token → C.recorded w.storage token ≤ w.tokens token w.self →
    w.tokens token dst + C.recorded w.storage token ≤ i128Max →
    ∃ w', C.exec w ⟨.collectProtocolFees token dst, auth, false⟩ = .ok w' ∧
      w'.transfers = w.transfers ++ [⟨token, w.self, dst, C.recorded w.storage token⟩]

namespace Effect

variable {call : Call}

theorem self (h : Effect C w call w') : w'.self = w.self := by
  cases h with
  | still => rfl
  | deposit _ _ hpaid _ => exact hpaid.self
  | collect hpaid _ => exact hpaid.self

theorem covered (h : Effect C w call w') (hw : Covered C w) : Covered C w' := by
  cases h with
  | still hrecorded _ =>
    intro t
    simpa only [hrecorded] using hw t
  | @deposit token src amount w₁ s hne _ hpaid hrecorded =>
    intro t
    obtain ⟨hnonneg, hle⟩ := hw t
    simp only [hrecorded, hpaid.self]
    by_cases ht : t = token
    · subst ht
      have hcredited := hpaid.credited hne
      have := hpaid.nonneg
      rw [Function.update_self]
      omega
    · rw [Function.update_of_ne ht, hpaid.others t ht]
      exact ⟨hnonneg, hle⟩
  | @collect token dst w₁ s hpaid hrecorded =>
    intro t
    obtain ⟨hnonneg, hle⟩ := hw t
    simp only [hrecorded, hpaid.self]
    by_cases ht : t = token
    · subst ht
      rw [Function.update_self]
      omega
    · rw [Function.update_of_ne ht, hpaid.others t ht]
      exact ⟨hnonneg, hle⟩

/-- A call keeps the balance of deposits, records and collections. -/
theorem balance (h : Effect C w call w') (t : Address) :
    C.recorded w'.storage t + w'.collected t = C.recorded w.storage t + w.collected t +
      if C.admits w call then call.deposits t else 0 := by
  cases h with
  | still hrecorded hadmits => simp [hrecorded, hadmits, World.collected]
  | @deposit token src amount w₁ s hne hadmits hpaid hrecorded =>
    have hcollected : ({ w₁ with storage := s } : World σ).collected t = w.collected t := by
      simp [World.collected, hpaid.transfers, hpaid.self, hne]
    rw [hcollected, hadmits, if_pos rfl]
    simp only [hrecorded, Call.deposits]
    by_cases ht : t = token
    · subst ht
      rw [Function.update_self, if_pos rfl]
      omega
    · rw [Function.update_of_ne ht, if_neg (Ne.symm ht), add_zero]
  | @collect token dst w₁ s hpaid hrecorded =>
    have hcollected : ({ w₁ with storage := s } : World σ).collected t =
        w.collected t + if token = t then C.recorded w.storage token else 0 := by
      by_cases ht : token = t
      · simp [World.collected, hpaid.transfers, hpaid.self, ht]
      · simp [World.collected, hpaid.transfers, hpaid.self, ht]
    rw [hcollected]
    simp only [hrecorded, Contract.admits]
    by_cases ht : t = token
    · subst ht
      simp only [Function.update_self, if_true, Bool.false_eq_true, if_false]
      omega
    · rw [Function.update_of_ne ht, if_neg (Ne.symm ht)]
      simp

end Effect

/-! ### Runs -/

namespace Custodian

variable {is : List Invocation} {ls : List (Invocation × Bool)}

theorem step_effect (hC : Custodian C) {i : Invocation} {admitted : Bool} (hw : Covered C w)
    (hdepositor : i.call.depositor? ≠ some w.self) (h : C.step w i = .ok (w', admitted)) :
    Effect C w i.call w' ∧ admitted = C.admits w i.call := by
  simp only [Contract.step, bind_eq_ok, pure_eq_ok, Prod.mk.injEq] at h
  obtain ⟨_, hexec, rfl, rfl⟩ := h
  exact ⟨hC.effect w i _ hw hdepositor hexec, rfl⟩

/-- A run from a covered state leads to one, and keeps the balance. -/
theorem run (hC : Custodian C) {self : Address} (hself : w.self = self) (hw : Covered C w)
    (h : Trace (fun w l w' => Fires C.step w l w' ∧ l.1.call.depositor? ≠ some self) w ls w') :
    w'.self = self ∧ Covered C w' ∧ ∀ t,
      C.recorded w'.storage t + w'.collected t =
        C.recorded w.storage t + w.collected t + deposited t ls := by
  induction h with
  | nil s => exact ⟨hself, hw, fun t => by simp [deposited]⟩
  | @cons s s₁ s' l ls hstep _ ih =>
    subst hself
    obtain ⟨heffect, hadmitted⟩ := hC.step_effect hw hstep.2 hstep.1
    obtain ⟨hself, hcovered, hbalance⟩ := ih heffect.self (heffect.covered hw)
    refine ⟨hself, hcovered, fun t => ?_⟩
    have hdeposited : deposited t (l :: ls) =
        (if l.2 then l.1.call.deposits t else 0) + deposited t ls := by simp [deposited]
    rw [hbalance t, heffect.balance t, hdeposited, hadmitted, add_assoc]

/-- Every run of a custodian that starts with nothing on record obeys the law. -/
theorem law (hC : Custodian C) (hnothing : ∀ t, C.recorded w.storage t = 0)
    (hnone : w.transfers = []) (hdepositors : ∀ i ∈ is, i.call.depositor? ≠ some w.self)
    (h : runAll C.step w is = .ok (w', ls)) : CustodyLaw C w' ls := by
  have hstart : Covered C w := fun t => by simp [hnothing t]
  obtain ⟨-, hcovered, hbalance⟩ := hC.run rfl hstart
    (trace_of_along h (along_of_forall (fun i hi _ => hdepositors i hi) w))
  refine ⟨fun t => ?_, fun t => (hcovered t).2, ?_, ?_⟩
  · have hcollected : w.collected t = 0 := by simp [World.collected, hnone]
    have := hbalance t
    rw [hnothing t, hcollected] at this
    omega
  · intro token dst auth hauth hpos hroom
    exact hC.pays w' token dst auth hauth hpos (hcovered token).2 hroom
  · intro token dst auth refuses w'' hexec t ht
    have heffect := hC.effect w' ⟨.collectProtocolFees token dst, auth, refuses⟩ w'' hcovered
      (by simp [Call.depositor?]) hexec
    cases heffect with
    | still hrecorded _ => exact ⟨rfl, congrFun hrecorded t⟩
    | collect hpaid hrecorded =>
      exact ⟨hpaid.others t ht, by rw [hrecorded, Function.update_of_ne ht]⟩

end Custodian

/-! ### The newer contract -/

@[simp] theorem Storage.getBalance_setBalance (s : Storage) (token : Address) (balance : ℤ) :
    (s.setBalance token balance).getBalance = Function.update s.getBalance token balance := by
  funext t
  by_cases ht : t = token
  · subst ht
    simp [getBalance, setBalance]
  · simp [getBalance, setBalance, ht]

section Newer

variable {w w' : World Storage} {auth : List Address} {refuses : Bool} {token src dst : Address}
  {amount : ℤ}

theorem depositProtocolFees_effect (hne : src ≠ w.self)
    (h : depositProtocolFees w auth refuses token src amount = .ok w') :
    Effect current w (.depositProtocolFees token src amount) w' := by
  simp only [depositProtocolFees, bind_eq_ok, require_eq_ok, exists_const] at h
  obtain ⟨-, hauthorized, h⟩ := h
  split at h
  · rename_i hoff
    obtain rfl := pure_eq_ok.mp h
    exact .still rfl (by simp [Contract.admits, current, hoff])
  · rename_i hon
    simp only [bind_eq_ok, fitI_eq_ok, pure_eq_ok] at h
    obtain ⟨_, -, w₁, hpay, _, ⟨-, rfl⟩, rfl⟩ := h
    have hpaid := transfer_cases hpay
    refine .deposit hne ?_ hpaid ?_
    · rw [Bool.not_eq_false] at hon
      simp [Contract.admits, current, hon, hauthorized]
    · simp only [current, hpaid.storage, Storage.getBalance_setBalance]

theorem collectProtocolFees_effect (h : collectProtocolFees w auth refuses token dst = .ok w') :
    Effect current w (.collectProtocolFees token dst) w' := by
  simp only [collectProtocolFees, bind_eq_ok] at h
  obtain ⟨_, -, _, -, h⟩ := h
  split at h
  · obtain rfl := pure_eq_ok.mp h
    exact .still rfl rfl
  · simp only [bind_eq_ok, pure_eq_ok] at h
    obtain ⟨w₁, hpay, rfl⟩ := h
    have hpaid := transfer_cases hpay
    exact .collect hpaid (by simp only [current, hpaid.storage, Storage.getBalance_setBalance])

theorem collectProtocolFees_pays {admin : Address} (hadmin : w.storage.admin = some admin)
    (hauth : admin ∈ auth) (hpos : 0 < w.storage.getBalance token)
    (hcovered : w.storage.getBalance token ≤ w.tokens token w.self)
    (hroom : w.tokens token dst + w.storage.getBalance token ≤ i128Max) :
    ∃ w', collectProtocolFees w auth false token dst = .ok w' ∧
      w'.transfers = w.transfers ++ [⟨token, w.self, dst, w.storage.getBalance token⟩] := by
  obtain ⟨w₁, hpay⟩ := transfer_ok (Int.le_of_lt hpos) hcovered hroom
  refine ⟨{ w₁ with storage := w₁.storage.setBalance token 0 }, ?_, (transfer_cases hpay).transfers⟩
  simp only [collectProtocolFees, if_neg (Int.not_le.mpr hpos), bind_eq_ok, pure_eq_ok]
  exact ⟨admin, expect_eq_ok.mpr hadmin, (), require_eq_ok.mpr hauth, w₁, hpay, rfl⟩

end Newer

theorem custodian_current : Custodian current where
  effect := by
    rintro w ⟨call, auth, refuses⟩ w' - hdepositor hexec
    cases call with
    | setAuthorizedPool pool authorized =>
      simp only [current, exec, setAuthorizedPool, bind_eq_ok, pure_eq_ok] at hexec
      obtain ⟨_, -, _, -, rfl⟩ := hexec
      exact .still rfl rfl
    | setFeeSwitch on =>
      simp only [current, exec, setFeeSwitch, bind_eq_ok, pure_eq_ok] at hexec
      obtain ⟨_, -, _, -, rfl⟩ := hexec
      exact .still rfl rfl
    | depositProtocolFees token src amount =>
      exact depositProtocolFees_effect (fun h => hdepositor (congrArg some h)) hexec
    | collectProtocolFees token dst => exact collectProtocolFees_effect hexec
  pays := by
    rintro w token dst auth ⟨admin, hauth, hadmin⟩ hpos hcovered hroom
    exact collectProtocolFees_pays hadmin hauth hpos hcovered hroom

/-! ### The older contract -/

namespace Legacy

section Older

variable {overflowChecks : Bool} {w w' : World Storage} {auth : List Address} {refuses : Bool}
  {token src dst : Address} {amount n : ℤ}

@[simp] theorem readFeeBalance_setFees (s : Storage) (token : Address) (amount : ℤ) :
    readFeeBalance (s.setFees token amount) = Function.update (readFeeBalance s) token amount := by
  funext t
  by_cases ht : t = token
  · subst ht
    simp [readFeeBalance, Storage.setFees]
  · simp [readFeeBalance, Storage.setFees, ht]

/-- Within an `i128`, addition neither stops nor wraps. -/
theorem addI128_eq {a b : ℤ} (h0 : 0 ≤ a + b) (hmax : a + b ≤ i128Max)
    (h : addI128 overflowChecks a b = .ok n) : n = a + b := by
  cases overflowChecks with
  | true => exact (fitI_eq_ok.mp h).2.symm
  | false =>
    obtain rfl := pure_eq_ok.mp h
    refine Int.bmod_eq_of_le (by omega) ?_
    rw [i128Max] at hmax
    omega

/-- A deposit leaves room for the record, since the balance that holds it is an `i128`. -/
theorem depositProtocolFees_effect (hw : Covered (legacy overflowChecks) w) (hne : src ≠ w.self)
    (h : depositProtocolFees overflowChecks w auth refuses token src amount = .ok (w', n)) :
    Effect (legacy overflowChecks) w (.depositProtocolFees token src amount) w' := by
  simp only [depositProtocolFees, bind_eq_ok, require_eq_ok, exists_const] at h
  obtain ⟨hpos, hauthorized, h⟩ := h
  split at h
  · rename_i hoff
    simp only [pure_eq_ok, Prod.mk.injEq] at h
    obtain ⟨rfl, -⟩ := h
    exact .still rfl (by simp [Contract.admits, legacy, hoff])
  · rename_i hon
    simp only [bind_eq_ok, pure_eq_ok, Prod.mk.injEq] at h
    obtain ⟨_, -, w₁, hpay, nextAmount, hadd, rfl, -⟩ := h
    have hpaid := transfer_cases hpay
    obtain ⟨hnonneg, hle⟩ : 0 ≤ readFeeBalance w.storage token ∧
      readFeeBalance w.storage token ≤ w.tokens token w.self := hw token
    have hcredited := hpaid.credited hne
    have hfits := hpaid.fits
    rw [hpaid.storage] at hadd
    obtain rfl := addI128_eq (by omega) (by omega) hadd
    refine .deposit hne ?_ hpaid ?_
    · rw [Bool.not_eq_false] at hon
      simp [Contract.admits, legacy, hon, hauthorized]
    · simp only [legacy, hpaid.storage, readFeeBalance_setFees]

theorem collectProtocolFees_effect
    (h : collectProtocolFees w auth refuses token dst = .ok (w', n)) :
    Effect (legacy overflowChecks) w (.collectProtocolFees token dst) w' := by
  simp only [collectProtocolFees, bind_eq_ok, require_eq_ok, exists_const, pure_eq_ok,
    Prod.mk.injEq] at h
  obtain ⟨_, -, _, -, -, w₁, hpay, rfl, -⟩ := h
  have hpaid := transfer_cases hpay
  exact .collect hpaid (by simp only [legacy, hpaid.storage, readFeeBalance_setFees])

theorem collectProtocolFees_pays {admin : Address} (hadmin : w.storage.admin = some admin)
    (hauth : admin ∈ auth) (hpos : 0 < readFeeBalance w.storage token)
    (hcovered : readFeeBalance w.storage token ≤ w.tokens token w.self)
    (hroom : w.tokens token dst + readFeeBalance w.storage token ≤ i128Max) :
    ∃ w', collectProtocolFees w auth false token dst =
        .ok (w', readFeeBalance w.storage token) ∧
      w'.transfers = w.transfers ++ [⟨token, w.self, dst, readFeeBalance w.storage token⟩] := by
  obtain ⟨w₁, hpay⟩ := transfer_ok (Int.le_of_lt hpos) hcovered hroom
  refine ⟨{ w₁ with storage := w₁.storage.setFees token 0 }, ?_, (transfer_cases hpay).transfers⟩
  simp only [collectProtocolFees, bind_eq_ok, require_eq_ok, exists_const, pure_eq_ok]
  exact ⟨admin, expect_eq_ok.mpr hadmin, (), require_eq_ok.mpr hauth, hpos, w₁, hpay, rfl⟩

end Older

end Legacy

theorem map_eq_ok {ε α β : Type} {x : Except ε α} {f : α → β} {b : β} :
    x.map f = .ok b ↔ ∃ a, x = .ok a ∧ f a = b := by
  cases x <;> simp [Except.map]

theorem custodian_legacy (overflowChecks : Bool) : Custodian (legacy overflowChecks) where
  effect := by
    rintro w ⟨call, auth, refuses⟩ w' hw hdepositor hexec
    cases call with
    | setAuthorizedPool pool authorized =>
      simp only [legacy, Legacy.exec, Legacy.setAuthorizedPool, bind_eq_ok, pure_eq_ok] at hexec
      obtain ⟨_, -, _, -, rfl⟩ := hexec
      exact .still rfl rfl
    | setFeeSwitch on =>
      simp only [legacy, Legacy.exec, Legacy.setFeeSwitch, bind_eq_ok, pure_eq_ok] at hexec
      obtain ⟨_, -, _, -, rfl⟩ := hexec
      exact .still rfl rfl
    | depositProtocolFees token src amount =>
      obtain ⟨⟨w'', n⟩, hdeposit, rfl⟩ := map_eq_ok.mp hexec
      exact Legacy.depositProtocolFees_effect hw (fun h => hdepositor (congrArg some h)) hdeposit
    | collectProtocolFees token dst =>
      obtain ⟨⟨w'', n⟩, hcollect, rfl⟩ := map_eq_ok.mp hexec
      exact Legacy.collectProtocolFees_effect hcollect
  pays := by
    rintro w token dst auth ⟨admin, hauth, hadmin⟩ hpos hcovered hroom
    obtain ⟨w', hcollect, htransfers⟩ :=
      Legacy.collectProtocolFees_pays hadmin hauth hpos hcovered hroom
    exact ⟨w', map_eq_ok.mpr ⟨_, hcollect, rfl⟩, htransfers⟩

/-! ### Both contracts -/

/-- **Custody.** Whatever calls are made after `initialize`, by anyone and with any tokens, no
deposit being the collector's own, both contracts obey the law. -/
theorem custody_law :
    (∀ (self : Address) (tokens : Tokens) (auth : List Address) (admin treasury : Address)
      (w w' : World Storage) (is : List Invocation) (ls : List (Invocation × Bool)),
      initializeCollector ⟨self, .deployed, tokens, []⟩ auth admin treasury = .ok w →
      (∀ i ∈ is, i.call.depositor? ≠ some self) → runAll current.step w is = .ok (w', ls) →
      CustodyLaw current w' ls) ∧
    ∀ (overflowChecks : Bool) (self : Address) (tokens : Tokens) (auth : List Address)
      (admin : Address) (w w' : World Legacy.Storage) (is : List Invocation)
      (ls : List (Invocation × Bool)),
      Legacy.initializeCollector ⟨self, .deployed, tokens, []⟩ auth admin = .ok w →
      (∀ i ∈ is, i.call.depositor? ≠ some self) →
      runAll (legacy overflowChecks).step w is = .ok (w', ls) →
      CustodyLaw (legacy overflowChecks) w' ls := by
  constructor
  · intro self tokens auth admin treasury w w' is ls hinit hdepositors hrun
    simp only [initializeCollector, bind_eq_ok, pure_eq_ok] at hinit
    obtain ⟨_, -, _, -, rfl⟩ := hinit
    exact custodian_current.law (fun _ => rfl) rfl hdepositors hrun
  · intro overflowChecks self tokens auth admin w w' is ls hinit hdepositors hrun
    simp only [Legacy.initializeCollector, bind_eq_ok, pure_eq_ok] at hinit
    obtain ⟨_, -, _, -, rfl⟩ := hinit
    exact (custodian_legacy overflowChecks).law (fun _ => rfl) rfl hdepositors hrun

/-- A pool is authorised and the switch turned on; the pool deposits, once with the switch on and
once with it off, and the admin collects. Addresses are 0 for the collector, 1 for the admin, 2
for the pool and 3 for the token. -/
def depositAndCollect : List Invocation :=
  [⟨.setAuthorizedPool ⟨2⟩ true, [⟨1⟩], false⟩, ⟨.setFeeSwitch true, [⟨1⟩], false⟩,
    ⟨.depositProtocolFees ⟨3⟩ ⟨2⟩ 100, [⟨2⟩], false⟩, ⟨.setFeeSwitch false, [⟨1⟩], false⟩,
    ⟨.depositProtocolFees ⟨3⟩ ⟨2⟩ 50, [], false⟩, ⟨.collectProtocolFees ⟨3⟩ ⟨1⟩, [⟨1⟩], false⟩]

/-- The collectors after `initialize`, everyone having a thousand of every token. -/
def started : World Storage :=
  ⟨⟨0⟩, { Storage.deployed with admin := some ⟨1⟩, treasury := some ⟨4⟩, feeOn := some false },
    fun _ _ => 1000, []⟩

def Legacy.started : World Legacy.Storage :=
  ⟨⟨0⟩, { Legacy.Storage.deployed with admin := some ⟨1⟩, feeSwitch := some false },
    fun _ _ => 1000, []⟩

theorem custody_law_deposit_and_collect :
    (∃ w ls, runAll current.step started depositAndCollect = .ok (w, ls) ∧
      (deposited ⟨3⟩ ls = 100 ∧ w.collected ⟨3⟩ = 100) ∧ CustodyLaw current w ls) ∧
    ∃ w ls, runAll (legacy false).step Legacy.started depositAndCollect = .ok (w, ls) ∧
      (deposited ⟨3⟩ ls = 100 ∧ w.collected ⟨3⟩ = 100) ∧ CustodyLaw (legacy false) w ls := by
  have hdepositors : ∀ i ∈ depositAndCollect, i.call.depositor? ≠ some ⟨0⟩ := by decide
  constructor
  · have hrun : Yields (runAll current.step started depositAndCollect) fun x =>
        deposited ⟨3⟩ x.2 = 100 ∧ x.1.collected ⟨3⟩ = 100 := by decide
    obtain ⟨⟨w, ls⟩, hrun, hsums⟩ := yields_iff.mp hrun
    exact ⟨w, ls, hrun, hsums, custody_law.1 _ _ [⟨1⟩] ⟨1⟩ ⟨4⟩ _ _ _ _ rfl hdepositors hrun⟩
  · have hrun : Yields (runAll (legacy false).step Legacy.started depositAndCollect) fun x =>
        deposited ⟨3⟩ x.2 = 100 ∧ x.1.collected ⟨3⟩ = 100 := by decide
    obtain ⟨⟨w, ls⟩, hrun, hsums⟩ := yields_iff.mp hrun
    exact ⟨w, ls, hrun, hsums, custody_law.2 _ _ _ [⟨1⟩] ⟨1⟩ _ _ _ _ rfl hdepositors hrun⟩

end Swyft.FeeCollector
