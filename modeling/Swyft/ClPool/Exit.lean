import Swyft.ClPool.FeeGrowth
import Swyft.ClPool.Flows
import Swyft.ClPool.TickAgreement
import Swyft.ClPool.NftAgreement
import Swyft.Lib.Floors

/-!
# Leaving the pool

What can stop an owner who collects or withdraws. The tick table, the NFT records and the counters
never do: the agreements of the earlier files bound every difference taken from them. Two products
can. `collect` multiplies the pending growth by the liquidity, and `remove_liquidity` multiplies
the liquidity by the distance of the price from the range's lower end, each in 128 bits and each
under `overflow-checks`.

The fee debt itself is nowhere stored; it is the pending growth times whatever the liquidity is by
the time `collect` runs, so removing liquidity first removes fees with it.

## Main results

* `exit_never_traps_iff` — exactly when every exit of a position runs through
* `fees_survive_removal_iff` — exactly when removing liquidity first costs no fees
-/

namespace Swyft.ClPool

open Checked Floors

variable {w w' : World} {i l : ℕ} {p : Position} {m : PositionMetadata} {e : Trap}

/-! ### Steps that never stop an exit -/

theorem transferPositive_error {tokens : Tokens} {token src dst : Address} {amount : ℕ}
    (h : transferPositive tokens token src dst amount = .error e) : e = .transfer := by
  simp only [transferPositive] at h
  split at h
  · exact Tokens.transfer_error h
  · exact absurd h pure_ne_error

/-- The transfers of an exit stop only when a token contract refuses. -/
theorem transferBoth_error {src dst : Address} {amount0 amount1 : ℕ}
    (h : transferBoth w src dst amount0 amount1 = .error e) : e = .transfer := by
  simp only [transferBoth, bind_eq_error] at h
  obtain h | ⟨_, -, h⟩ := h
  · exact transferPositive_error h
  · exact transferPositive_error h

/-- Taking back liquidity a tick has does not stop `update_tick`. -/
theorem updateTick_neg_ok {ticks : Ticks} {tick : ℤ} {upper : Bool} (hpos : 0 < l)
    (hgross : l ≤ (readTick ticks tick).liquidityGross) (hl : l < 2 ^ 96)
    (hnet : |(readTick ticks tick).liquidityNet| < 2 ^ 97) :
    ∃ r, updateTick ticks tick (-(l : ℤ)) upper = .ok r := by
  have hneg : negI128 (-(l : ℤ)) = .ok (l : ℤ) := negI128_eq_ok.mpr ⟨by omega, by omega⟩
  have hafter : grossAfter (readTick ticks tick).liquidityGross (-(l : ℤ))
      = .ok ((readTick ticks tick).liquidityGross - l) := by
    rw [grossAfter, if_neg (by omega), hneg, ok_bind, Int.toNat_natCast]
    exact subU_of_le hgross
  rw [abs_lt] at hnet
  simp only [updateTick, hafter, ok_bind]
  refine ⟨_, bind_eq_ok.mpr ⟨_, fitI_eq_ok.mpr ⟨?_, rfl⟩, rfl⟩⟩
  split <;> omega

/-- The tick updates of a removal do not stop. -/
theorem updateBoundaries_neg_ok (hw : Wf w) (ht : TicksAgree w.pool)
    (hp : w.pool.positions.get? i = some p) (hpos : 0 < l) (hle : l ≤ p.liquidity) :
    ∃ r, updateBoundaries w.pool p.tickLower p.tickUpper (-(l : ℤ)) = .ok r := by
  have hlt := hw.liquidityWhere_lt
  have hbound : ∀ t, |(readTick w.pool.ticks t).liquidityNet| < 2 ^ 97 := by
    intro t
    have h1 : startingAt w.pool.positions t < 2 ^ 96 := hlt _
    have h2 : endingAt w.pool.positions t < 2 ^ 96 := hlt _
    rw [ht.net, abs_lt]
    omega
  have hsmall : l < 2 ^ 96 := by
    have := (hw.positions i p hp).liquidity_lt
    omega
  have hlower : p.liquidity ≤ startingAt w.pool.positions p.tickLower :=
    le_liquidityWhere hp _ rfl
  have hupper : p.liquidity ≤ endingAt w.pool.positions p.tickUpper :=
    le_liquidityWhere hp _ rfl
  obtain ⟨⟨ticks₁, flipped₁⟩, h₁⟩ :
      ∃ r, updateTick w.pool.ticks p.tickLower (-(l : ℤ)) false = .ok r :=
    updateTick_neg_ok hpos (by rw [ht.gross]; omega) hsmall (hbound p.tickLower)
  -- the two boundaries differ, so the second update reads the table as it was
  have hread : readTick ticks₁ p.tickUpper = readTick w.pool.ticks p.tickUpper := by
    obtain ⟨_, -, -, hticks⟩ := updateTick_eq_ok h₁
    have hne : p.tickUpper ≠ p.tickLower := (hw.positions i p hp).ordered.ne'
    rw [hticks]
    split
    · rw [readTick_update, if_neg hne]
    · rw [writeTick, readTick_update, if_neg hne]
  obtain ⟨⟨ticks₂, flipped₂⟩, h₂⟩ : ∃ r, updateTick ticks₁ p.tickUpper (-(l : ℤ)) true = .ok r :=
    updateTick_neg_ok hpos (by rw [hread, ht.gross]; omega) hsmall
      (by rw [hread]; exact hbound p.tickUpper)
  simp only [updateBoundaries, h₁, h₂, ok_bind]
  exact ⟨_, rfl⟩

/-- Dropping or rewriting the two records of a position does not stop. -/
theorem shrinkPosition_ok (hw : Wf w) (ha : NftAgree w) (hp : w.pool.positions.get? i = some p)
    (owner : Address) (liquidity : ℕ) :
    ∃ r, shrinkPosition w i { p with owner, liquidity } = .ok r := by
  obtain ⟨hid, m, hm, -⟩ := ha.of_position hp
  simp only [shrinkPosition, hid]
  split
  · have hburn := PositionNft.burn_eq_ok.mpr ⟨hw.minter, ⟨m, hm⟩, rfl⟩
    rw [hburn, ok_bind]
    exact ⟨_, rfl⟩
  case isFalse h0 =>
    have hupdate := PositionNft.updateLiquidity_eq_ok.mpr ⟨hw.minter, h0, m, hm, rfl⟩
    rw [hupdate, ok_bind]
    exact ⟨_, rfl⟩

/-- The current owner of a position's NFT passes `require_position_owner`. -/
theorem requirePositionOwner_ok (ha : NftAgree w) (hp : w.pool.positions.get? i = some p)
    (hm : w.nft.getPosition p.nftId = some m) : requirePositionOwner w p m.owner = .ok () := by
  obtain ⟨hid, m', hm', hdata⟩ := ha.of_position hp
  rw [PositionNft.getPosition, hid, hm'] at hm
  obtain rfl := Option.some.inj hm
  exact requirePositionOwner_eq_ok.mpr ⟨m', by rw [hid]; exact hm', rfl, hdata⟩

/-! ### The two products -/

/-- The pending growth of a token times the liquidity fits in a word: in range, the growth since
the snapshot; out of range, nothing if the snapshot is zero, and otherwise the distance from the
snapshot to the end of the word. -/
def FeesFit (pool : Pool) (k : Asset) (q : Position) : Prop :=
  if pool.inRange q then (pool.growth k - q.last k) * q.liquidity < 2 ^ 128
  else q.last k = 0 ∨ (2 ^ 128 - q.last k) * q.liquidity < 2 ^ 128

/-- The liquidity times the distance of the price from the lower end of the range fits. -/
def PrincipalFits (pool : Pool) (q : Position) (liquidity : ℕ) : Prop :=
  liquidity * (clamp pool.sqrtPriceX96 (tickToSqrtPrice q.tickLower) (tickToSqrtPrice q.tickUpper)
    - tickToSqrtPrice q.tickLower) < 2 ^ 128

instance (pool : Pool) (k : Asset) (q : Position) : Decidable (FeesFit pool k q) :=
  inferInstanceAs (Decidable (ite _ _ _))

instance (pool : Pool) (q : Position) (liquidity : ℕ) :
    Decidable (PrincipalFits pool q liquidity) :=
  inferInstanceAs (Decidable (_ < _))

theorem feesFit_iff (hg : GrowthBounded w.pool) (hp : w.pool.positions.get? i = some p)
    (k : Asset) : FeesFit w.pool k p ↔ w.pool.pending k p * p.liquidity < 2 ^ 128 := by
  rw [FeesFit]
  split
  case isTrue hin => rw [hg.pending_inRange hp k hin]
  case isFalse hout =>
    rw [hg.pending_outOfRange hp k hout]
    split
    case isTrue h0 => simp [h0]
    case isFalse h0 => simp [h0]

/-- `collect` by the owner, with nothing left to stop it but the fee products and the transfers. -/
theorem collect_eq (h : Reachable w) (hp : w.pool.positions.get? i = some p)
    (hm : w.nft.getPosition p.nftId = some m) (hs : m.owner ≠ w.self) :
    collect w m.owner i = (do
      let owed0 ← feesOwed 0 (w.pool.inside .zero p) (p.last .zero) p.liquidity
      let owed1 ← feesOwed 0 (w.pool.inside .one p) (p.last .one) p.liquidity
      let tokens ← transferBoth w w.self m.owner owed0 owed1
      let pool : Pool :=
        { w.pool with
          positions := w.pool.positions.replace i
            (p.collected m.owner (w.pool.inside0 p) (w.pool.inside1 p)) }
      pure ({ w with pool, tokens }, owed0, owed1)) := by
  have hwf := h.wf
  have hpw := hwf.positions i p hp
  rw [collect]
  simp only [requireAuth, ensureInitialized, require_pos hs, require_pos hwf.initialized, hp, getOr,
    requirePositionOwner_ok h.nftAgree hp hm, ok_bind, hpw.owed0, hpw.owed1]
  rfl

/-- When both fee products fit, `collect` stops only on a refused transfer. -/
theorem collect_error (h : Reachable w) (hp : w.pool.positions.get? i = some p)
    (hm : w.nft.getPosition p.nftId = some m) (hs : m.owner ≠ w.self)
    (hfit : ∀ k, w.pool.pending k p * p.liquidity < 2 ^ 128)
    (he : collect w m.owner i = .error e) : e = .transfer := by
  have hok : ∀ k, ∃ fee, feesOwed 0 (w.pool.inside k p) (p.last k) p.liquidity = .ok fee :=
    fun k => ⟨_, feesOwed_zero_eq_ok.mpr ⟨hfit k, rfl⟩⟩
  obtain ⟨fee0, h0⟩ := hok .zero
  obtain ⟨fee1, h1⟩ := hok .one
  rw [collect_eq h hp hm hs, h0, ok_bind, h1, ok_bind] at he
  obtain he | ⟨_, -, he⟩ := bind_eq_error.mp he
  · exact transferBoth_error he
  · exact absurd he pure_ne_error

/-- When a fee product does not fit, `collect` overflows. -/
theorem collect_overflows (h : Reachable w) (hp : w.pool.positions.get? i = some p)
    (hm : w.nft.getPosition p.nftId = some m) (hs : m.owner ≠ w.self) {k : Asset}
    (hbig : ¬ w.pool.pending k p * p.liquidity < 2 ^ 128) :
    collect w m.owner i = .error .arithmetic := by
  have hover : ∀ k, ¬ w.pool.pending k p * p.liquidity < 2 ^ 128 →
      feesOwed 0 (w.pool.inside k p) (p.last k) p.liquidity = .error .arithmetic := by
    intro k hk
    rw [Pool.pending] at hk
    rw [feesOwed, mulU128, fitU_of_ge (not_lt.mp hk), error_bind]
  rw [collect_eq h hp hm hs]
  by_cases h0 : w.pool.pending .zero p * p.liquidity < 2 ^ 128
  · have h1 : ¬ w.pool.pending .one p * p.liquidity < 2 ^ 128 := by
      cases k with
      | zero => exact absurd h0 hbig
      | one => exact hbig
    rw [feesOwed_zero_eq_ok.mpr ⟨h0, rfl⟩, ok_bind, hover _ h1, error_bind]
  · rw [hover _ h0, error_bind]

/-- The amounts of a removal, when the principal product fits. -/
theorem amounts_of_fits (hw : Wf w) (hp : w.pool.positions.get? i = some p) (hle : l ≤ p.liquidity)
    (hfit : PrincipalFits w.pool p l) :
    amountsForLiquidity l (tickToSqrtPrice p.tickLower) (tickToSqrtPrice p.tickUpper)
      w.pool.sqrtPriceX96 = .ok
        (principal0 l (tickToSqrtPrice p.tickLower) (tickToSqrtPrice p.tickUpper),
          principal1 l (tickToSqrtPrice p.tickLower) (tickToSqrtPrice p.tickUpper)
            w.pool.sqrtPriceX96) := by
  have hpw := hw.positions i p hp
  exact amountsForLiquidity_of_fits hpw.price_le hpw.priced
    (lt_of_le_of_lt (Nat.mul_le_mul_right _ hle) hpw.scaled) hfit

/-- `remove_liquidity` by the owner once its amounts are known, with nothing left to stop it but
the transfers. -/
theorem removeLiquidity_eq (h : Reachable w) (hp : w.pool.positions.get? i = some p)
    (hm : w.nft.getPosition p.nftId = some m) (hs : m.owner ≠ w.self) (hpos : 0 < l)
    (hle : l ≤ p.liquidity) {amount0 amount1 : ℕ}
    (hamounts : amountsForLiquidity l (tickToSqrtPrice p.tickLower) (tickToSqrtPrice p.tickUpper)
      w.pool.sqrtPriceX96 = .ok (amount0, amount1)) :
    ∃ after : Tokens → World, removeLiquidity w m.owner i l = (do
      let tokens ← transferBoth w w.self m.owner amount0 amount1
      pure (after tokens, amount0, amount1)) := by
  have hwf := h.wf
  have hlt := (hwf.positions i p hp).liquidity_lt
  have hneg : negI128 (asI128 l) = .ok (-(l : ℤ)) := by
    rw [asI128_of_lt (by omega)]
    exact negI128_eq_ok.mpr ⟨by omega, rfl⟩
  obtain ⟨⟨ticks, bitmap⟩, hbound⟩ := updateBoundaries_neg_ok hwf h.ticksAgree hp hpos hle
  obtain ⟨⟨positions, nft⟩, hshrink⟩ :=
    shrinkPosition_ok hwf h.nftAgree hp m.owner (p.liquidity - l)
  have hsub : subU128 p.liquidity l = .ok (p.liquidity - l) := subU_of_le hle
  let liquidity := activeAfterRemove w.pool p.tickLower p.tickUpper l
  refine ⟨fun tokens =>
    { w with pool := { w.pool with positions, ticks, bitmap, liquidity }, nft, tokens }, ?_⟩
  rw [removeLiquidity]
  simp only [requireAuth, ensureInitialized, require_pos hs, require_pos hwf.initialized, hp, getOr,
    requirePositionOwner_ok h.nftAgree hp hm, require_pos (show l ≠ 0 ∧ _ from ⟨hpos.ne', hle⟩),
    hamounts, hneg, hbound, hsub, hshrink, ok_bind, liquidity]

/-- When the principal product fits, `remove_liquidity` by the owner stops only on a refused
transfer. -/
theorem removeLiquidity_error (h : Reachable w) (hp : w.pool.positions.get? i = some p)
    (hm : w.nft.getPosition p.nftId = some m) (hs : m.owner ≠ w.self) (hpos : 0 < l)
    (hle : l ≤ p.liquidity) (hfit : PrincipalFits w.pool p l)
    (he : removeLiquidity w m.owner i l = .error e) : e = .transfer := by
  obtain ⟨after, heq⟩ :=
    removeLiquidity_eq h hp hm hs hpos hle (amounts_of_fits h.wf hp hle hfit)
  rw [heq] at he
  obtain he | ⟨_, -, he⟩ := bind_eq_error.mp he
  · exact transferBoth_error he
  · exact absurd he pure_ne_error

/-- When the principal product does not fit, `remove_liquidity` overflows. -/
theorem removeLiquidity_overflows (h : Reachable w) (hp : w.pool.positions.get? i = some p)
    (hm : w.nft.getPosition p.nftId = some m) (hs : m.owner ≠ w.self) (hpos : 0 < l)
    (hle : l ≤ p.liquidity) (hbig : ¬ PrincipalFits w.pool p l) :
    removeLiquidity w m.owner i l = .error .arithmetic := by
  have hwf := h.wf
  have hpw := hwf.positions i p hp
  have hscaled : l * Q96 < 2 ^ 128 :=
    lt_of_le_of_lt (Nat.mul_le_mul_right _ hle) hpw.scaled
  have hdiv : l * Q96 / tickToSqrtPrice p.tickUpper ≤ l * Q96 / tickToSqrtPrice p.tickLower :=
    Nat.div_le_div_left hpw.price_le hpw.priced
  have hamounts : amountsForLiquidity l (tickToSqrtPrice p.tickLower)
      (tickToSqrtPrice p.tickUpper) w.pool.sqrtPriceX96 = .error .arithmetic := by
    rw [amountsForLiquidity, require_pos hpw.price_le, ok_bind, mulU128, fitU_of_lt hscaled, ok_bind,
      divU128, divU_of_pos hpw.priced, ok_bind, divU128,
      divU_of_pos (lt_of_lt_of_le hpw.priced hpw.price_le), ok_bind, subU128, subU_of_le hdiv,
      ok_bind, subU128, subU_of_le (clamp_bounds hpw.price_le).1, ok_bind, mulU128,
      fitU_of_ge (not_lt.mp hbig), error_bind]
  rw [removeLiquidity]
  simp only [requireAuth, ensureInitialized, require_pos hs, require_pos hwf.initialized, hp, getOr,
    requirePositionOwner_ok h.nftAgree hp hm, require_pos (show l ≠ 0 ∧ _ from ⟨hpos.ne', hle⟩),
    hamounts, ok_bind, error_bind]

/-! ### Exits that run through -/

/-- Every exit of a position by `owner`, a `collect` or a removal of any part of its liquidity,
runs through unless a token contract refuses a transfer. -/
def ExitsRunThrough (w : World) (i : ℕ) (p : Position) (owner : Address) : Prop :=
  (∀ e, collect w owner i = .error e → e = .transfer) ∧
    ∀ l, 0 < l → l ≤ p.liquidity → ∀ e, removeLiquidity w owner i l = .error e → e = .transfer

/-- **Exits run through exactly when three products fit**: the pending growth of either token
times the liquidity, and the liquidity times the price's distance from the range's lower end. -/
theorem exit_never_traps_iff (h : Reachable w) (hp : w.pool.positions.get? i = some p)
    (hm : w.nft.getPosition p.nftId = some m) (hs : m.owner ≠ w.self) :
    ExitsRunThrough w i p m.owner ↔
      FeesFit w.pool .zero p ∧ FeesFit w.pool .one p ∧ PrincipalFits w.pool p p.liquidity := by
  have hfees := feesFit_iff h.growthBounded hp
  constructor
  · rintro ⟨hcollect, hremove⟩
    have hk : ∀ k, FeesFit w.pool k p := by
      intro k
      by_contra hbig
      rw [hfees] at hbig
      have := hcollect _ (collect_overflows h hp hm hs hbig)
      cases this
    refine ⟨hk .zero, hk .one, ?_⟩
    by_contra hbig
    have hpos := (h.wf.positions i p hp).positive
    have := hremove _ hpos le_rfl _ (removeLiquidity_overflows h hp hm hs hpos le_rfl hbig)
    cases this
  · rintro ⟨h0, h1, hfit⟩
    refine ⟨fun e he => collect_error h hp hm hs (fun k => ?_) he, fun l hpos hle e he =>
      removeLiquidity_error h hp hm hs hpos hle ?_ he⟩
    · cases k with
      | zero => exact (hfees .zero).mp h0
      | one => exact (hfees .one).mp h1
    · exact lt_of_le_of_lt (Nat.mul_le_mul_right _ hle) hfit

/-- A position opened and left alone can be left again. -/
theorem fresh_position_exits :
    ∃ w p, Reachable w ∧ w.pool.positions.get? 0 = some p ∧ ExitsRunThrough w 0 p ⟨7⟩ := by
  obtain ⟨w, hr, p, hp, hm, hself, hfit⟩ : ∃ w, Reachable w ∧ ∃ p,
      w.pool.positions.get? 0 = some p ∧
      w.nft.getPosition p.nftId = some ⟨⟨7⟩, ⟨0⟩, -120, 120, 1000000000, 0⟩ ∧ w.self = ⟨0⟩ ∧
      (FeesFit w.pool .zero p ∧ FeesFit w.pool .one p ∧
        PrincipalFits w.pool p p.liquidity) := by
    obtain ⟨w, hr, hq⟩ := exists_reachable 3000 unitPrice
      [.addLiquidity ⟨7⟩ (-120) 120 1000000000, .swap ⟨9⟩ true 100000 1]
      (fun w => Yields (getOr Trap.arithmetic (w.pool.positions.get? 0)) fun p =>
        w.nft.getPosition p.nftId = some ⟨⟨7⟩, ⟨0⟩, -120, 120, 1000000000, 0⟩ ∧ w.self = ⟨0⟩ ∧
        FeesFit w.pool .zero p ∧ FeesFit w.pool .one p ∧ PrincipalFits w.pool p p.liquidity)
      (by decide +kernel)
    obtain ⟨p, hp, hq⟩ := yields_iff.mp hq
    exact ⟨w, hr, p, getOr_eq_ok.mp hp, hq⟩
  refine ⟨w, p, hr, hp, (exit_never_traps_iff hr hp hm ?_).mpr hfit⟩
  rw [hself]
  decide

/-- **An exit that traps.** The second position opens in range once fees have been earned, so its
snapshot is not zero. The price then leaves its range, the inside growth drops to zero, and
`collect` multiplies the wrapped difference by the liquidity. -/
theorem collect_out_of_range_traps :
    ∃ w p m, Reachable w ∧ w.pool.positions.get? 1 = some p ∧
      w.nft.getPosition p.nftId = some m ∧ m.owner ≠ w.self ∧
      collect w m.owner 1 = .error .arithmetic := by
  obtain ⟨w, hr, hq⟩ := exists_reachable 3000 unitPrice
    [.addLiquidity ⟨7⟩ (-120) 120 1000000000, .swap ⟨9⟩ true 100000 1,
      .addLiquidity ⟨8⟩ (-60) 60 1000000000,
      .swap ⟨9⟩ true 100000000 78871635782950148074373002560]
    (fun w => Yields (getOr Trap.arithmetic (w.pool.positions.get? 1)) fun p =>
      Yields (getOr Trap.arithmetic (w.nft.getPosition p.nftId)) fun m =>
        m.owner ≠ w.self ∧ errorOf (collect w m.owner 1) = some .arithmetic)
    (by decide +kernel)
  obtain ⟨p, hp, hq⟩ := yields_iff.mp hq
  obtain ⟨m, hm, hself, hstop⟩ := yields_iff.mp hq
  exact ⟨w, p, m, hr, getOr_eq_ok.mp hp, getOr_eq_ok.mp hm, hself, errorOf_eq_some.mp hstop⟩

/-! ### Removing liquidity before collecting -/

/-- What an owner is paid for removing `liquidity` and then, unless that closes the position,
collecting. -/
def removeThenCollect (w : World) (owner : Address) (id liquidity : ℕ) : Res (ℕ × ℕ) := do
  let position ← getOr (poolError .positionNotFound) (w.pool.positions.get? id)
  let (w', amount0, amount1) ← removeLiquidity w owner id liquidity
  if liquidity < position.liquidity then do
    let (_, fee0, fee1) ← collect w' owner id
    pure (amount0 + fee0, amount1 + fee1)
  else pure (amount0, amount1)

/-- A removal leaves what is pending per unit of liquidity alone. -/
theorem Removed.pending {owner : Address} {amount0 amount1 : ℕ}
    (h : Removed w owner i l p w' amount0 amount1) (k : Asset) (liquidity : ℕ) :
    w'.pool.pending k { p with owner, liquidity } = w.pool.pending k p := by
  have hgrowth : w'.pool.growth k = w.pool.growth k := by rw [h.world]; cases k <;> rfl
  have hin : w'.pool.inRange { p with owner, liquidity } ↔ w.pool.inRange p := by
    rw [h.world]
    exact Iff.rfl
  simp only [Pool.pending, Pool.inside, hin, hgrowth, shrunk_last]

/-- The record left behind by a removal that does not close the position. -/
theorem Removed.left {owner : Address} {amount0 amount1 : ℕ}
    (h : Removed w owner i l p w' amount0 amount1) (hlt : l < p.liquidity) :
    w'.pool.positions.get? i = some { p with owner, liquidity := p.liquidity - l } := by
  obtain ⟨h0, -⟩ | ⟨-, hpos, -⟩ := shrinkPosition_cases h.shrunk
  · have h0 : p.liquidity - l = 0 := h0
    omega
  · rw [hpos, IdStore.get?_replace h.found, if_pos rfl]

/-- Its NFT keeps its owner. -/
theorem Removed.nft_left {owner : Address} {amount0 amount1 : ℕ}
    (h : Removed w owner i l p w' amount0 amount1) (hlt : l < p.liquidity)
    (hm : w.nft.getPosition p.nftId = some m) :
    w'.nft.getPosition p.nftId = some { m with liquidity := p.liquidity - l } := by
  obtain ⟨h0, -⟩ | ⟨-, -, hnft⟩ := shrinkPosition_cases h.shrunk
  · have h0 : p.liquidity - l = 0 := h0
    omega
  · obtain ⟨-, -, m', hm', hnft⟩ := PositionNft.updateLiquidity_eq_ok.mp hnft
    have hm' : w.nft.positions.get? p.nftId = some m' := hm'
    obtain rfl := Option.some.inj (hm.symm.trans hm')
    rw [hnft, PositionNft.getPosition, IdStore.get?_replace hm, if_pos rfl]

/-- A successful removal is a step. -/
theorem Removed.step {owner : Address} {amount0 amount1 : ℕ} (h : Reachable w)
    (hr : Removed w owner i l p w' amount0 amount1) : Reachable w' := by
  have hlt : l < 2 ^ 128 := by
    have := (h.wf.positions i p hr.found).liquidity_lt
    have := hr.le
    omega
  refine h.step (e := (.removeLiquidity owner i ⟨l, hlt⟩, .removed amount0 amount1)) ?_
  simp only [Step, exec, removeLiquidity_eq_ok.mpr ⟨p, hr⟩, ok_bind, pure_eq_ok]

/-- The fees a position can still collect once `l` of its liquidity is gone. -/
def feesLeft (w : World) (p : Position) (l : ℕ) (k : Asset) : ℕ :=
  w.pool.pending k p * (p.liquidity - l) / Q96

/-- The principal of `l` of a position's liquidity at a price. -/
def Position.principalAt (q : Position) (l price : ℕ) : Asset → ℕ
  | .zero => principal0 l (tickToSqrtPrice q.tickLower) (tickToSqrtPrice q.tickUpper)
  | .one => principal1 l (tickToSqrtPrice q.tickLower) (tickToSqrtPrice q.tickUpper) price

/-- The principal of `l` of a position's liquidity at the current price. -/
def principalOf (w : World) (p : Position) (l : ℕ) : Asset → ℕ :=
  p.principalAt l w.pool.sqrtPriceX96

theorem Removed.amounts_eq {owner : Address} {amount0 amount1 : ℕ}
    (h : Removed w owner i l p w' amount0 amount1) :
    PrincipalFits w.pool p l ∧ amount0 = principalOf w p l .zero ∧
      amount1 = principalOf w p l .one := by
  obtain ⟨-, -, -, hfit, h0, h1⟩ := amountsForLiquidity_eq_ok.mp h.amounts
  exact ⟨hfit, h0, h1⟩

theorem Removed.self {owner : Address} {amount0 amount1 : ℕ}
    (h : Removed w owner i l p w' amount0 amount1) : w'.self = w.self := by
  rw [h.world]

theorem Removed.inToken_eq {owner : Address} {amount0 amount1 : ℕ}
    (h : Removed w owner i l p w' amount0 amount1) : inToken w'.pool = inToken w.pool := by
  rw [h.world]
  rfl

/-- The pool's balances after a removal. -/
theorem Removed.balance {owner : Address} {amount0 amount1 : ℕ}
    (h : Removed w owner i l p w' amount0 amount1) (t : Address) :
    w'.tokens t w.self + inToken w.pool t amount0 amount1 = w.tokens t w.self := by
  obtain ⟨h0, h1⟩ := amounts_lt h.amounts
  exact transferBoth_paid (lt_trans h0 (by decide)) (lt_trans h1 (by decide)) h.transfers
    h.signed.symm t

/-- The pool's balances after a `collect`. -/
theorem Collected.balance {owner : Address} {fee0 fee1 : ℕ} (hw : Wf w)
    (h : Collected w owner i p w' fee0 fee1) (t : Address) :
    w'.tokens t w.self + inToken w.pool t fee0 fee1 = w.tokens t w.self := by
  obtain ⟨hfit, rfl, rfl⟩ := h.fees hw
  exact transferBoth_paid (lt_of_le_of_lt (Nat.div_le_self _ _) (hfit .zero))
    (lt_of_le_of_lt (Nat.div_le_self _ _) (hfit .one)) h.transfers h.signed.symm t

/-- The payments of `removeThenCollect`: the principal, and the pending growth times whatever
liquidity is left. The pool's balances covered both. -/
theorem removeThenCollect_pays (h : Reachable w) (hp : w.pool.positions.get? i = some p)
    {owner : Address} {paid0 paid1 : ℕ}
    (hpaid : removeThenCollect w owner i l = .ok (paid0, paid1)) :
    PrincipalFits w.pool p l ∧ Covers w paid0 paid1 ∧
      paid0 = principalOf w p l .zero + feesLeft w p l .zero ∧
      paid1 = principalOf w p l .one + feesLeft w p l .one := by
  simp only [removeThenCollect, bind_eq_ok, getOr_eq_ok, Prod.exists] at hpaid
  obtain ⟨q, hq, w', amount0, amount1, hremove, hpaid⟩ := hpaid
  obtain rfl : p = q := Option.some.inj (hp.symm.trans hq)
  obtain ⟨q, hr⟩ := removeLiquidity_eq_ok.mp hremove
  obtain rfl : p = q := Option.some.inj (hp.symm.trans hr.found)
  obtain ⟨hfit, rfl, rfl⟩ := hr.amounts_eq
  have hbal := hr.balance
  split at hpaid
  case isTrue hlt =>
    simp only [bind_eq_ok, pure_eq_ok, Prod.exists, Prod.mk.injEq] at hpaid
    obtain ⟨w'', fee0, fee1, hcollect, rfl, rfl⟩ := hpaid
    obtain ⟨q, hc⟩ := collect_eq_ok.mp hcollect
    have hpay := hc.balance (hr.step h).wf
    obtain ⟨-, rfl, rfl⟩ := hc.fees (hr.step h).wf
    obtain rfl := Option.some.inj ((hr.left hlt).symm.trans hc.found)
    rw [hr.pending, hr.pending] at hpay ⊢
    refine ⟨hfit, fun t => ?_, rfl, rfl⟩
    have hpay := hpay t
    rw [hr.self, hr.inToken_eq] at hpay
    rw [inToken_add, ← hbal t, ← hpay]
    exact le_of_eq_of_le (Nat.add_comm _ _) (Nat.add_le_add_right (Nat.le_add_left _ _) _)
  case isFalse hge =>
    simp only [pure_eq_ok, Prod.mk.injEq] at hpaid
    obtain ⟨rfl, rfl⟩ := hpaid
    have h0 : ∀ k, feesLeft w p l k = 0 := by
      intro k
      have hz : p.liquidity - l = 0 := by omega
      rw [feesLeft, hz, Nat.mul_zero, Nat.zero_div]
    rw [h0, h0, Nat.add_zero, Nat.add_zero]
    refine ⟨hfit, fun t => ?_, rfl, rfl⟩
    rw [← hbal t]
    exact Nat.le_add_left _ _

/-- Removing and collecting goes through exactly when the principal product fits and the pool's
balances cover both payments. -/
theorem removeThenCollect_ok (h : Reachable w) (hp : w.pool.positions.get? i = some p)
    (hm : w.nft.getPosition p.nftId = some m) (hs : m.owner ≠ w.self) (hpos : 0 < l)
    (hle : l ≤ p.liquidity) (hpend : ∀ k, w.pool.pending k p * p.liquidity < 2 ^ 128)
    (hfit : PrincipalFits w.pool p l)
    (hcovers : Covers w (principalOf w p l .zero + feesLeft w p l .zero)
      (principalOf w p l .one + feesLeft w p l .one)) :
    ∃ paid, removeThenCollect w m.owner i l = .ok paid := by
  have hamounts := amounts_of_fits h.wf hp hle hfit
  obtain ⟨hsmall0, hsmall1⟩ := amounts_lt hamounts
  obtain ⟨after, heq⟩ := removeLiquidity_eq h hp hm hs hpos hle hamounts
  obtain ⟨tokens, htokens⟩ := (transferBoth_ok_iff (lt_trans hsmall0 (by decide))
    (lt_trans hsmall1 (by decide)) hs.symm).mpr fun t =>
      le_trans (inToken_mono (Nat.le_add_right _ _) (Nat.le_add_right _ _)) (hcovers t)
  rw [htokens, ok_bind] at heq
  have hremove := heq.trans (pure_eq_ok.mpr rfl)
  obtain ⟨q, hr⟩ := removeLiquidity_eq_ok.mp hremove
  obtain rfl : p = q := Option.some.inj (hp.symm.trans hr.found)
  simp only [removeThenCollect, hp, getOr, hremove, ok_bind]
  split
  case isTrue hlt =>
    have hfees : ∀ k, feesOwed 0 ((after tokens).pool.inside k
          { p with owner := m.owner, liquidity := p.liquidity - l })
          (({ p with owner := m.owner, liquidity := p.liquidity - l } : Position).last k)
          (p.liquidity - l) = .ok (feesLeft w p l k) := by
      intro k
      have hk := hr.pending k (p.liquidity - l)
      rw [Pool.pending] at hk
      refine feesOwed_zero_eq_ok.mpr ?_
      rw [hk]
      exact ⟨lt_of_le_of_lt (Nat.mul_le_mul_left _ (Nat.sub_le _ _)) (hpend k), rfl⟩
    have hsmall : ∀ k, feesLeft w p l k < 2 ^ 127 := fun k =>
      lt_trans (div_Q96_lt (lt_of_le_of_lt (Nat.mul_le_mul_left _ (Nat.sub_le _ _)) (hpend k)))
        (by decide)
    have hleft : Covers (after tokens) (feesLeft w p l .zero) (feesLeft w p l .one) := by
      intro t
      have hbal := hr.balance t
      have hall := hcovers t
      rw [inToken_add, ← hbal, add_comm] at hall
      rw [hr.inToken_eq, hr.self]
      exact Nat.le_of_add_le_add_right hall
    obtain ⟨tokens', htokens'⟩ := (transferBoth_ok_iff (hsmall .zero) (hsmall .one)
      (by rw [hr.self]; exact hs.symm)).mpr hleft
    have hcollect := collect_eq (hr.step h) (hr.left hlt) (hr.nft_left hlt hm)
      (by rw [hr.self]; exact hs)
    rw [hfees .zero, ok_bind, hfees .one, ok_bind, htokens', ok_bind] at hcollect
    rw [hcollect]
    exact ⟨_, rfl⟩
  case isFalse => exact ⟨_, rfl⟩

/-- **Fees survive a removal exactly when the remainders cover it.** Where `collect` would pay
`fee0` and `fee1`, removing `l` first, and collecting after unless that closes the position, pays
them on top of the principal if and only if

* for each token the pending growth times `l` is at most the remainder that flooring the fees
  drops, and
* the two payments can be made at all: the principal product fits, and the pool's balances cover
  what is paid. -/
theorem fees_survive_removal_iff (h : Reachable w) (hp : w.pool.positions.get? i = some p)
    {owner : Address} {fee0 fee1 : ℕ} (hcollect : collect w owner i = .ok (w', fee0, fee1))
    (hpos : 0 < l) (hle : l ≤ p.liquidity) :
    (∃ paid0 paid1, removeThenCollect w owner i l = .ok (paid0, paid1) ∧
        principalOf w p l .zero + fee0 ≤ paid0 ∧ principalOf w p l .one + fee1 ≤ paid1) ↔
      (∀ k, w.pool.pending k p * l ≤ w.pool.pending k p * p.liquidity % Q96) ∧
        PrincipalFits w.pool p l ∧
        Covers w (principalOf w p l .zero + feesLeft w p l .zero)
          (principalOf w p l .one + feesLeft w p l .one) := by
  obtain ⟨q, hc⟩ := collect_eq_ok.mp hcollect
  obtain rfl : p = q := Option.some.inj (hp.symm.trans hc.found)
  obtain ⟨hpend, rfl, rfl⟩ := hc.fees h.wf
  obtain ⟨m, hm, rfl, -⟩ := requirePositionOwner_eq_ok.mp hc.owned
  have hk : ∀ k, w.pool.pending k p * p.liquidity / Q96 ≤ feesLeft w p l k ↔
      w.pool.pending k p * l ≤ w.pool.pending k p * p.liquidity % Q96 := by
    intro k
    rw [feesLeft, Nat.mul_sub]
    exact div_le_sub_div_iff Q96_pos (Nat.mul_le_mul_left _ hle)
  constructor
  · rintro ⟨paid0, paid1, hpaid, h0, h1⟩
    obtain ⟨hfit, hcovers, rfl, rfl⟩ := removeThenCollect_pays h hp hpaid
    refine ⟨fun k => (hk k).mp ?_, hfit, hcovers⟩
    cases k with
    | zero => exact Nat.le_of_add_le_add_left h0
    | one => exact Nat.le_of_add_le_add_left h1
  · rintro ⟨hall, hfit, hcovers⟩
    obtain ⟨⟨paid0, paid1⟩, hpaid⟩ :=
      removeThenCollect_ok h hp hm hc.signed hpos hle hpend hfit hcovers
    obtain ⟨-, -, rfl, rfl⟩ := removeThenCollect_pays h hp hpaid
    exact ⟨_, _, hpaid, Nat.add_le_add_left ((hk .zero).mpr (hall .zero)) _,
      Nat.add_le_add_left ((hk .one).mpr (hall .one)) _⟩

/-- A small removal within the remainder: the fees are still there to collect. -/
theorem small_removal_keeps_fees :
    ∃ w p w' fee0 paid0 paid1, Reachable w ∧ w.pool.positions.get? 1 = some p ∧
      collect w ⟨7⟩ 1 = .ok (w', fee0, 0) ∧ 0 < fee0 ∧
      removeThenCollect w ⟨7⟩ 1 1000 = .ok (paid0, paid1) ∧
      principalOf w p 1000 .zero + fee0 ≤ paid0 ∧ principalOf w p 1000 .one + 0 ≤ paid1 := by
  obtain ⟨w, hr, hq⟩ := exists_reachable 3000 unitPrice
    [.addLiquidity ⟨8⟩ (-240) (-120) 1000000000, .addLiquidity ⟨7⟩ (-120) 120 1000000000,
      .swap ⟨9⟩ true 100000 1]
    (fun w => Yields (getOr Trap.arithmetic (w.pool.positions.get? 1)) fun p =>
      Yields (collect w ⟨7⟩ 1) fun x => (0 < x.2.1 ∧ x.2.2 = 0 ∧ 1000 ≤ p.liquidity) ∧
        ((w.pool.pending .zero p * 1000 ≤ w.pool.pending .zero p * p.liquidity % Q96 ∧
          w.pool.pending .one p * 1000 ≤ w.pool.pending .one p * p.liquidity % Q96) ∧
          PrincipalFits w.pool p 1000 ∧
          Covers w (principalOf w p 1000 .zero + feesLeft w p 1000 .zero)
            (principalOf w p 1000 .one + feesLeft w p 1000 .one)))
    (by decide +kernel)
  obtain ⟨p, hp, hq⟩ := yields_iff.mp hq
  obtain ⟨⟨w', fee0, fee1⟩, hcollect, ⟨hpos, rfl, hle⟩, ⟨h0, h1⟩, hrest⟩ := yields_iff.mp hq
  have hp := getOr_eq_ok.mp hp
  obtain ⟨paid0, paid1, hpaid⟩ :=
    (fees_survive_removal_iff hr hp hcollect (by decide : 0 < 1000) hle).mpr
      ⟨fun k => by cases k with | zero => exact h0 | one => exact h1, hrest⟩
  exact ⟨w, p, w', fee0, paid0, paid1, hr, hp, hcollect, hpos, hpaid⟩

/-- **A removal that forfeits fees.** Closing the position pays the principal and nothing of the
fees a `collect` just before would have paid. -/
theorem closing_forfeits_fees :
    ∃ w p w' fee0 paid0 paid1, Reachable w ∧ w.pool.positions.get? 1 = some p ∧
      collect w ⟨7⟩ 1 = .ok (w', fee0, 0) ∧
      removeThenCollect w ⟨7⟩ 1 p.liquidity = .ok (paid0, paid1) ∧
      ¬ principalOf w p p.liquidity .zero + fee0 ≤ paid0 := by
  obtain ⟨w, hr, hq⟩ := exists_reachable 3000 unitPrice
    [.addLiquidity ⟨8⟩ (-240) (-120) 1000000000, .addLiquidity ⟨7⟩ (-120) 120 1000000000,
      .swap ⟨9⟩ true 100000 1]
    (fun w => Yields (getOr Trap.arithmetic (w.pool.positions.get? 1)) fun p =>
      Yields (collect w ⟨7⟩ 1) fun x => x.2.2 = 0 ∧
        Yields (removeThenCollect w ⟨7⟩ 1 p.liquidity) fun y =>
          ¬ principalOf w p p.liquidity .zero + x.2.1 ≤ y.1)
    (by decide +kernel)
  obtain ⟨p, hp, hq⟩ := yields_iff.mp hq
  obtain ⟨⟨w', fee0, fee1⟩, hcollect, rfl, hq⟩ := yields_iff.mp hq
  obtain ⟨⟨paid0, paid1⟩, hpaid, hlt⟩ := yields_iff.mp hq
  exact ⟨w, p, w', fee0, paid0, paid1, hr, getOr_eq_ok.mp hp, hcollect, hpaid, hlt⟩

end Swyft.ClPool
