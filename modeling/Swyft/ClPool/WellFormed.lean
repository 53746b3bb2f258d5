import Swyft.ClPool.SwapLoop

/-!
# What always holds of the pool

The facts about a pool's storage that do not depend on any accounting: it is initialised, its NFT
contract answers to it, its current tick is the tick of its price, and every record it holds was
let in by `add_liquidity`. Every other file starts from `Reachable.wf`.
-/

namespace Swyft.ClPool

open Checked

/-- A record `add_liquidity` lets in: an ordered range of usable ticks, and a liquidity for which
`amounts_for_liquidity` can be computed. -/
structure Position.Wf (position : Position) (tickSpacing : ℤ) : Prop where
  ordered : position.tickLower < position.tickUpper
  validLower : ValidTick position.tickLower tickSpacing
  validUpper : ValidTick position.tickUpper tickSpacing
  positive : 0 < position.liquidity
  scaled : position.liquidity * Q96 < 2 ^ 128
  priced : 0 < tickToSqrtPrice position.tickLower
  owed0 : position.tokensOwed0 = 0
  owed1 : position.tokensOwed1 = 0

/-- The pool's storage is as `initialize` and the entry points leave it. -/
structure Wf (w : World) : Prop where
  initialized : w.pool.initialized = true
  minter : w.nft.minter = some w.self
  feeTier : w.pool.feeTier = 500 ∨ w.pool.feeTier = 3000 ∨ w.pool.feeTier = 10000
  spacing : w.pool.tickSpacing = feeTierToTickSpacing w.pool.feeTier
  tick : w.pool.currentTick = sqrtPriceToTick w.pool.sqrtPriceX96
  counter : w.pool.positions.next < 2 ^ 64
  positions : ∀ i position, w.pool.positions.get? i = some position →
    position.Wf w.pool.tickSpacing

theorem tickSpacing_pos (feeTier : ℕ) : 0 < feeTierToTickSpacing feeTier := by
  unfold feeTierToTickSpacing
  split <;> decide

theorem ValidTick.dvd {tick tickSpacing : ℤ} (h : ValidTick tick tickSpacing) :
    tickSpacing ∣ tick :=
  Int.dvd_of_tmod_eq_zero h.2.2

theorem ValidTick.bounds {tick tickSpacing : ℤ} (h : ValidTick tick tickSpacing) :
    -887272 ≤ tick ∧ tick ≤ 887272 :=
  ⟨h.1, h.2.1⟩

namespace Position.Wf

variable {position : Position} {tickSpacing : ℤ}

/-- `liquidity * Q96` fits in a word, so the liquidity itself is small. -/
theorem liquidity_lt (h : position.Wf tickSpacing) : position.liquidity < 2 ^ 32 := by
  have := h.scaled
  rw [Q96] at this
  omega

theorem price_le (h : position.Wf tickSpacing) :
    tickToSqrtPrice position.tickLower ≤ tickToSqrtPrice position.tickUpper :=
  tickToSqrtPrice_mono h.ordered.le

/-- A smaller liquidity is let in too. -/
theorem shrink (h : position.Wf tickSpacing) {owner : Address} {liquidity : ℕ}
    (hpos : 0 < liquidity) (hle : liquidity ≤ position.liquidity) :
    ({ position with owner, liquidity } : Position).Wf tickSpacing where
  ordered := h.ordered
  validLower := h.validLower
  validUpper := h.validUpper
  positive := hpos
  scaled := lt_of_le_of_lt (Nat.mul_le_mul_right _ hle) h.scaled
  priced := h.priced
  owed0 := h.owed0
  owed1 := h.owed1

theorem collected (h : position.Wf tickSpacing) (owner : Address) (inside0 inside1 : ℕ) :
    (position.collected owner inside0 inside1).Wf tickSpacing where
  ordered := h.ordered
  validLower := h.validLower
  validUpper := h.validUpper
  positive := h.positive
  scaled := h.scaled
  priced := h.priced
  owed0 := rfl
  owed1 := rfl

end Position.Wf

theorem Wf.spacing_pos {w : World} (h : Wf w) : 0 < w.pool.tickSpacing := by
  rw [h.spacing]
  exact tickSpacing_pos _

/-! ### Every reachable state -/

theorem Added.position_wf {w w' : World} {owner : Address} {tickLower tickUpper : ℤ}
    {liquidity id amount0 amount1 : ℕ}
    (h : Added w owner tickLower tickUpper liquidity w' id amount0 amount1) :
    (newPosition w.pool owner tickLower tickUpper liquidity w.nft.positions.next).Wf
      w.pool.tickSpacing := by
  obtain ⟨-, hlo, hscaled, -⟩ := amountsForLiquidity_eq_ok.mp h.amounts
  exact ⟨h.ordered, h.validLower, h.validUpper, Nat.pos_of_ne_zero h.positive, hscaled, hlo, rfl,
    rfl⟩

/-- How `shrink_position` changes the pool's records. -/
theorem shrinkPosition_cases {w : World} {id : ℕ} {position : Position}
    {positions : IdStore Position} {nft : PositionNft}
    (h : shrinkPosition w id position = .ok (positions, nft)) :
    (position.liquidity = 0 ∧ positions = w.pool.positions.erase id ∧
        w.nft.burn w.self position.nftId = .ok nft) ∨
      (position.liquidity ≠ 0 ∧ positions = w.pool.positions.replace id position ∧
        w.nft.updateLiquidity w.self position.nftId position.liquidity = .ok nft) := by
  simp only [shrinkPosition] at h
  split at h
  case isTrue h0 =>
    simp only [bind_eq_ok, pure_eq_ok, Prod.mk.injEq] at h
    obtain ⟨n, hn, rfl, rfl⟩ := h
    exact .inl ⟨h0, rfl, hn⟩
  case isFalse h0 =>
    simp only [bind_eq_ok, pure_eq_ok, Prod.mk.injEq] at h
    obtain ⟨n, hn, rfl, rfl⟩ := h
    exact .inr ⟨h0, rfl, hn⟩

/-- What `settle_pool` leaves of the pool. -/
theorem settlePool_eq_ok {p p' : Pool} {final : SwapState} :
    settlePool p final = .ok p' ↔ ∃ fg0 fg1,
      rollFeeGrowth p.feeGrowthGlobal0 final.feeGrowthDelta0 = .ok fg0 ∧
      rollFeeGrowth p.feeGrowthGlobal1 final.feeGrowthDelta1 = .ok fg1 ∧
      p' = { p with
        feeGrowthGlobal0 := fg0
        feeGrowthGlobal1 := fg1
        sqrtPriceX96 := final.sqrtPrice
        currentTick := sqrtPriceToTick final.sqrtPrice
        liquidity := final.liquidity
        ticks := final.ticks } := by
  simp only [settlePool, bind_eq_ok, pure_eq_ok]
  constructor
  · rintro ⟨fg0, h0, fg1, h1, rfl⟩; exact ⟨fg0, fg1, h0, h1, rfl⟩
  · rintro ⟨fg0, fg1, h0, h1, rfl⟩; exact ⟨fg0, h0, fg1, h1, rfl⟩

theorem rollFeeGrowth_eq_ok {global delta rolled : ℕ}
    (h : rollFeeGrowth global delta = .ok rolled) :
    rolled = global + delta ∧ (0 < delta → global + delta < 2 ^ 128) := by
  simp only [rollFeeGrowth] at h
  split at h
  case isTrue => obtain ⟨hlt, rfl⟩ := addU128_eq_ok.mp h; exact ⟨rfl, fun _ => hlt⟩
  case isFalse h0 => obtain rfl := pure_eq_ok.mp h; exact ⟨by omega, fun h => absurd h h0⟩

theorem genesis_eq_ok {self token0 token1 nftContract : Address} {tokens : Tokens}
    {oracle : Option OracleAdapter} {now feeTier : ℕ} {sqrtPriceX96 : U128} {w : World}
    (h : genesis self tokens oracle now token0 token1 feeTier sqrtPriceX96 nftContract = .ok w) :
    (feeTier = 500 ∨ feeTier = 3000 ∨ feeTier = 10000) ∧
      w = { self, tokens, oracle, now, nft := ⟨some self, .empty⟩, pool :=
        { Pool.deployed with
          initialized := true
          token0
          token1
          feeTier
          tickSpacing := feeTierToTickSpacing feeTier
          sqrtPriceX96
          currentTick := sqrtPriceToTick sqrtPriceX96
          nftContract } } := by
  simp only [genesis, PositionNft.initializeNft, initializePool, PositionNft.getMinter, bind_eq_ok,
    require_eq_ok, exists_const, pure_eq_ok, expect_eq_ok] at h
  obtain ⟨nft, ⟨-, rfl⟩, -, minter, hm, -, hf, rfl⟩ := h
  exact ⟨hf, rfl⟩

theorem Genesis.wf {w : World} (h : Genesis w) : Wf w := by
  obtain ⟨self, tokens, oracle, now, token0, token1, feeTier, sqrtPriceX96, nftContract, h⟩ := h
  obtain ⟨hf, rfl⟩ := genesis_eq_ok h
  exact ⟨rfl, rfl, hf, rfl, rfl, Nat.two_pow_pos 64, by rintro i position ⟨⟩⟩

theorem Genesis.no_positions {w : World} (h : Genesis w) : w.pool.positions = .empty := by
  obtain ⟨self, tokens, oracle, now, token0, token1, feeTier, sqrtPriceX96, nftContract, h⟩ := h
  obtain ⟨-, rfl⟩ := genesis_eq_ok h
  rfl

/-- Every step keeps the storage well formed. -/
theorem Wf.step {w w' : World} {e : Event} (hw : Wf w) (hs : Step w e w') : Wf w' := by
  cases Step.cases hs with
  | add h =>
    have hminter := (PositionNft.mint_eq_ok.mp h.minted).2.2.2.2.2
    rw [h.world]
    exact ⟨hw.initialized, by rw [hminter]; exact hw.minter, hw.feeTier, hw.spacing, hw.tick,
      h.counter,
      IdStore.forall_push hw.positions h.position_wf⟩
  | @remove owner id liquidity position w' amount0 amount1 h =>
    have hp := hw.positions _ _ h.found
    rw [h.world]
    obtain ⟨h0, hpos, hnft⟩ | ⟨h0, hpos, hnft⟩ := shrinkPosition_cases h.shrunk
    · obtain ⟨-, -, hn⟩ := PositionNft.burn_eq_ok.mp hnft
      exact ⟨hw.initialized, by rw [hn]; exact hw.minter, hw.feeTier, hw.spacing, hw.tick,
        by rw [hpos]; exact hw.counter, by rw [hpos]; exact IdStore.forall_erase hw.positions⟩
    · obtain ⟨-, -, m, -, hn⟩ := PositionNft.updateLiquidity_eq_ok.mp hnft
      refine ⟨hw.initialized, by rw [hn]; exact hw.minter, hw.feeTier, hw.spacing, hw.tick,
        by rw [hpos]; exact hw.counter, ?_⟩
      rw [hpos]
      exact IdStore.forall_replace h.found hw.positions
        (hp.shrink (Nat.pos_of_ne_zero h0) (Nat.sub_le _ _))
  | swap h =>
    obtain ⟨fg0, fg1, -, -, hpool⟩ := settlePool_eq_ok.mp h.settled
    rw [h.world, hpool]
    exact ⟨hw.initialized, hw.minter, hw.feeTier, hw.spacing, rfl, hw.counter, hw.positions⟩
  | collect h =>
    rw [h.world]
    exact ⟨hw.initialized, hw.minter, hw.feeTier, hw.spacing, hw.tick, hw.counter,
      IdStore.forall_replace h.found hw.positions ((hw.positions _ _ h.found).collected _ _ _)⟩
  | transferNft _ h =>
    obtain ⟨m, -, -, rfl⟩ := PositionNft.transfer_eq_ok.mp h
    exact ⟨hw.initialized, hw.minter, hw.feeTier, hw.spacing, hw.tick, hw.counter, hw.positions⟩
  | closeLedger =>
    exact ⟨hw.initialized, hw.minter, hw.feeTier, hw.spacing, hw.tick, hw.counter, hw.positions⟩

/-- **Every reachable state is well formed.** -/
theorem Reachable.wf {w : World} (h : Reachable w) : Wf w :=
  h.invariant (fun _ => Genesis.wf) fun _ _ _ hw hs => hw.step hs

end Swyft.ClPool
