import Swyft.ClPool.NftAgreement

/-!
# What others cannot touch

Every entry point of the pool acts for one account, which has to authorise it, and moves tokens
between that account and the pool only. A position is changed for the owner of its NFT only. So
whatever others do, in whatever order, an account that authorises nothing keeps its balances, its
NFTs and the positions behind them as they are.

## Main definitions

* `Call.signer` — who has to authorise a call

## Main results

* `Step.isolated` — one call
* `account_isolated` — whole runs
-/

namespace Swyft.ClPool

open Checked

/-- Who has to authorise a call. -/
def Call.signer : Call → Option Address
  | .addLiquidity owner _ _ _ => some owner
  | .removeLiquidity owner _ _ => some owner
  | .swap sender _ _ _ => some sender
  | .collect owner _ => some owner
  | .transferNft src _ _ => some src
  | .closeLedger _ => none

section Balances

variable {tokens tokens' : Tokens} {token src dst x : Address} {w : World}

/-- A transfer changes the balances of its two parties only. -/
theorem transfer_other {amount : ℤ} (h : tokens.transfer token src dst amount = .ok tokens')
    (hsrc : x ≠ src) (hdst : x ≠ dst) (t : Address) : tokens' t x = tokens t x := by
  simp only [Tokens.transfer, bind_eq_ok, require_eq_ok, exists_const, pure_eq_ok] at h
  obtain ⟨-, -, rfl⟩ := h
  simp [Tokens.set_apply, hsrc, hdst]

theorem transferPositive_other {amount : ℕ}
    (h : transferPositive tokens token src dst amount = .ok tokens') (hsrc : x ≠ src)
    (hdst : x ≠ dst) (t : Address) : tokens' t x = tokens t x := by
  rw [transferPositive] at h
  split at h
  case isTrue => exact transfer_other h hsrc hdst t
  case isFalse =>
    obtain rfl := pure_eq_ok.mp h
    rfl

theorem transferBoth_other {amount0 amount1 : ℕ}
    (h : transferBoth w src dst amount0 amount1 = .ok tokens') (hsrc : x ≠ src) (hdst : x ≠ dst)
    (t : Address) : tokens' t x = w.tokens t x := by
  simp only [transferBoth, bind_eq_ok] at h
  obtain ⟨mid, hmid, h⟩ := h
  rw [transferPositive_other h hsrc hdst, transferPositive_other hmid hsrc hdst]

theorem transferSwap_other {sender : Address} {zeroForOne : Bool} {inputPaid amountOut : ℕ}
    (h : transferSwap w sender zeroForOne inputPaid amountOut = .ok tokens') (hsender : x ≠ sender)
    (hself : x ≠ w.self) (t : Address) : tokens' t x = w.tokens t x := by
  simp only [transferSwap, bind_eq_ok] at h
  obtain ⟨_, -, mid, hmid, h⟩ := h
  have hpaid := transfer_other hmid hsender hself t
  split at h
  case isTrue =>
    simp only [bind_eq_ok] at h
    obtain ⟨_, -, h⟩ := h
    rw [transfer_other h hself hsender, hpaid]
  case isFalse =>
    obtain rfl := pure_eq_ok.mp h
    exact hpaid

end Balances

/-- What an account holds is the same in both worlds, or more: its balances and, of its NFTs, each
with its data and its position. -/
structure Untouched (x : Address) (w w' : World) : Prop where
  self : w'.self = w.self
  tokens : ∀ t, w'.tokens t x = w.tokens t x
  holdings : ∀ i m, w.nft.getPosition i = some m → m.owner = x →
    w'.nft.getPosition i = some m ∧ w'.pool.positions.get? i = w.pool.positions.get? i

namespace Untouched

variable {x : Address} {w w' w'' : World}

theorem refl (x : Address) (w : World) : Untouched x w w :=
  ⟨rfl, fun _ => rfl, fun _ _ hm _ => ⟨hm, rfl⟩⟩

theorem trans (h : Untouched x w w') (h' : Untouched x w' w'') : Untouched x w w'' where
  self := h'.self.trans h.self
  tokens t := (h'.tokens t).trans (h.tokens t)
  holdings i m hm hx := by
    obtain ⟨hnft, hpos⟩ := h.holdings i m hm hx
    obtain ⟨hnft', hpos'⟩ := h'.holdings i m hnft hx
    exact ⟨hnft', hpos'.trans hpos⟩

end Untouched

variable {x : Address} {w w' : World}

/-- The owner that a position asks for is that of the NFT of its number. -/
theorem NftAgree.owner_eq {id : ℕ} {position : Position} {owner : Address} {m : PositionMetadata}
    (h : NftAgree w) (hfound : w.pool.positions.get? id = some position)
    (howned : requirePositionOwner w position owner = .ok ())
    (hm : w.nft.getPosition id = some m) : m.owner = owner := by
  obtain ⟨m', hm', rfl, -⟩ := requirePositionOwner_eq_ok.mp howned
  rw [(h.of_position hfound).1, hm] at hm'
  rw [Option.some.inj hm']

/-- **One call** leaves what everyone holds untouched but for the one who authorises it. -/
theorem Step.isolated {e : Event} (h : NftAgree w) (hs : Step w e w') (hx : x ≠ w.self)
    (hsigner : e.1.signer ≠ some x) : Untouched x w w' := by
  cases Step.cases hs with
  | @add owner _ _ _ _ _ _ _ ha =>
    have hne : x ≠ owner := fun heq => hsigner (congrArg some heq.symm)
    obtain ⟨-, -, -, -, -, hnft⟩ := PositionNft.mint_eq_ok.mp ha.minted
    refine ⟨by rw [ha.world], transferBoth_other ha.transfers hne hx, fun i m hm _ => ?_⟩
    have hlt : i < w.nft.positions.next := IdStore.lt_next hm
    constructor
    · rw [hnft, PositionNft.getPosition, IdStore.get?_push, if_neg hlt.ne]
      exact hm
    · rw [ha.world]
      dsimp only
      rw [IdStore.get?_push, if_neg (h.next ▸ hlt.ne)]
  | @remove owner id _ position _ _ _ hr =>
    have hne : x ≠ owner := fun heq => hsigner (congrArg some heq.symm)
    refine ⟨by rw [hr.world], transferBoth_other hr.transfers hx hne, fun i m hm hmx => ?_⟩
    have hid : i ≠ id := by
      rintro rfl
      exact hne (hmx ▸ h.owner_eq hr.found hr.owned hm)
    have hnftId := (h.of_position hr.found).1
    obtain ⟨-, hpos, hnft⟩ | ⟨-, hpos, hnft⟩ := shrinkPosition_cases hr.shrunk
    · obtain ⟨-, -, hnft⟩ := PositionNft.burn_eq_ok.mp hnft
      rw [hpos, hnft]
      simp only [PositionNft.getPosition, IdStore.get?_erase, hnftId, if_neg hid, and_true]
      exact hm
    · obtain ⟨-, -, m', hm', hnft⟩ := PositionNft.updateLiquidity_eq_ok.mp hnft
      rw [hpos, hnft]
      simp only [hnftId] at hm' ⊢
      rw [PositionNft.getPosition, IdStore.get?_replace hm', if_neg hid,
        IdStore.get?_replace hr.found, if_neg hid]
      exact ⟨hm, rfl⟩
  | @swap sender _ _ _ _ _ _ _ hsw =>
    have hne : x ≠ sender := fun heq => hsigner (congrArg some heq.symm)
    obtain ⟨_, _, -, -, hpool⟩ := settlePool_eq_ok.mp hsw.settled
    refine ⟨by rw [hsw.world], transferSwap_other hsw.transfers hne hx, fun i m hm _ => ?_⟩
    rw [hsw.world]
    exact ⟨hm, congrArg (·.positions.get? i) hpool⟩
  | @collect owner id position _ _ _ hc =>
    have hne : x ≠ owner := fun heq => hsigner (congrArg some heq.symm)
    refine ⟨by rw [hc.world], transferBoth_other hc.transfers hx hne, fun i m hm hmx => ?_⟩
    have hid : i ≠ id := by
      rintro rfl
      exact hne (hmx ▸ h.owner_eq hc.found hc.owned hm)
    rw [hc.world]
    dsimp only
    rw [IdStore.get?_replace hc.found, if_neg hid]
    exact ⟨hm, rfl⟩
  | @transferNft src dst tokenId _ _ ht =>
    have hne : x ≠ src := fun heq => hsigner (congrArg some heq.symm)
    obtain ⟨m', hm', hsrc, rfl⟩ := PositionNft.transfer_eq_ok.mp ht
    refine ⟨rfl, fun _ => rfl, fun i m hm hmx => ⟨?_, rfl⟩⟩
    have hid : i ≠ tokenId := by
      rintro rfl
      obtain rfl : m = m' := Option.some.inj (hm.symm.trans hm')
      exact hne (hmx ▸ hsrc)
    rw [PositionNft.getPosition, IdStore.get?_replace hm', if_neg hid]
    exact hm
  | closeLedger => exact ⟨rfl, fun _ => rfl, fun _ _ hm _ => ⟨hm, rfl⟩⟩

/-- **An account is isolated from all others.** In every run from a reachable state in which it
authorises no call, its balances stay as they are, it keeps every NFT it has, and the positions
behind them are not changed in any way. -/
theorem account_isolated {es : List Event} (h : Reachable w) (hr : Run w es w') (hx : x ≠ w.self)
    (hnone : ∀ e ∈ es, e.1.signer ≠ some x) : Untouched x w w' := by
  induction hr with
  | nil => exact .refl x _
  | cons hs hr ih =>
    have hstep := hs.isolated h.nftAgree hx (hnone _ List.mem_cons_self)
    exact hstep.trans (ih (h.step hs) (hstep.self ▸ hx)
      fun e he => hnone e (List.mem_cons_of_mem _ he))

/-- A provider looks on while another account swaps and joins and leaves its range. -/
theorem account_isolated_provider :
    ∃ w es w', Reachable w ∧ Run w es w' ∧ es.length = 4 ∧
      (w.nft.getPosition 0).map PositionMetadata.owner = some ⟨7⟩ ∧ Untouched ⟨7⟩ w w' := by
  have h : Yields (play 3000 unitPrice [.addLiquidity ⟨7⟩ (-120) 120 1000000000]) fun x =>
      (x.1.self = ⟨0⟩ ∧ (x.1.nft.getPosition 0).map PositionMetadata.owner = some ⟨7⟩) ∧
        Yields (execAll x.1 [.swap ⟨9⟩ true 100000 1, .addLiquidity ⟨9⟩ (-120) 60 5000000,
          .removeLiquidity ⟨9⟩ 1 5000000, .swap ⟨9⟩ true 30000 1]) fun y =>
            y.2.map (·.1.signer) = List.replicate 4 (some ⟨9⟩) := by decide +kernel
  obtain ⟨⟨w, es₀⟩, hw, ⟨hself, howner⟩, h⟩ := yields_iff.mp h
  obtain ⟨⟨w', es⟩, hes, hsigners⟩ := yields_iff.mp h
  simp only [play, bind_eq_ok] at hw
  obtain ⟨g, hg, he⟩ := hw
  have hr : Reachable w := ⟨g, es₀, ⟨_, _, _, _, _, _, _, _, _, hg⟩, run_of_execAll he⟩
  refine ⟨w, es, w', hr, run_of_execAll hes, by simpa using congrArg List.length hsigners, howner,
    account_isolated hr (run_of_execAll hes) (by rw [hself]; decide) fun e he => ?_⟩
  have hmem : e.1.signer ∈ es.map (·.1.signer) := List.mem_map_of_mem he
  rw [hsigners] at hmem
  rw [List.eq_of_mem_replicate hmem]
  decide

end Swyft.ClPool
