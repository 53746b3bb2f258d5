import Swyft.ClPool.System

/-!
# What a successful call does

One structure for each entry point, holding everything a successful invocation checked and
changed, and one theorem saying that success means exactly that. Everything proved about runs
starts from here; no later file unfolds an entry point.
-/

namespace Swyft.ClPool

open Checked

/-- `validate_tick` lets a tick through. -/
def ValidTick (tick tickSpacing : ℤ) : Prop :=
  minTick ≤ tick ∧ tick ≤ maxTick ∧ tick.tmod tickSpacing = 0

@[simp] theorem validateTick_eq_ok {tick tickSpacing : ℤ} {u : Unit} :
    validateTick tick tickSpacing = .ok u ↔ ValidTick tick tickSpacing :=
  require_eq_ok

/-! ### Adding liquidity -/

/-- Everything a successful `add_liquidity` did. -/
structure Added (w : World) (owner : Address) (tickLower tickUpper : ℤ) (liquidity : ℕ)
    (w' : World) (id amount0 amount1 : ℕ) : Prop where
  signed : owner ≠ w.self
  initialized : w.pool.initialized = true
  ordered : tickLower < tickUpper
  positive : liquidity ≠ 0
  validLower : ValidTick tickLower w.pool.tickSpacing
  validUpper : ValidTick tickUpper w.pool.tickSpacing
  amounts : amountsForLiquidity liquidity (tickToSqrtPrice tickLower) (tickToSqrtPrice tickUpper)
    w.pool.sqrtPriceX96 = .ok (amount0, amount1)
  transfers : transferBoth w owner w.self amount0 amount1 = .ok w'.tokens
  boundaries : updateBoundaries w.pool tickLower tickUpper (asI128 liquidity)
    = .ok (w'.pool.ticks, w'.pool.bitmap)
  active : activeAfterAdd w.pool tickLower tickUpper liquidity = .ok w'.pool.liquidity
  minted : w.nft.mint w.self w.now owner w.self tickLower tickUpper liquidity
    = .ok (w'.nft, w.nft.positions.next)
  counter : w.pool.positions.next + 1 < 2 ^ 64
  id_eq : id = w.pool.positions.next
  world : w' =
    { w with
      pool := { w.pool with
        positions := w.pool.positions.push
          (newPosition w.pool owner tickLower tickUpper liquidity w.nft.positions.next)
        ticks := w'.pool.ticks
        bitmap := w'.pool.bitmap
        liquidity := w'.pool.liquidity }
      nft := w'.nft
      tokens := w'.tokens }

theorem addLiquidity_eq_ok {w w' : World} {owner : Address} {tickLower tickUpper : ℤ}
    {liquidity id amount0 amount1 : ℕ} :
    addLiquidity w owner tickLower tickUpper liquidity = .ok (w', id, amount0, amount1) ↔
      Added w owner tickLower tickUpper liquidity w' id amount0 amount1 := by
  simp only [addLiquidity, requireAuth, ensureInitialized, bind_eq_ok, require_eq_ok, exists_const,
    validateTick_eq_ok, pure_eq_ok, Prod.exists, Prod.mk.injEq, incU64_eq_ok]
  constructor
  · rintro ⟨hs, hi, hlt, hpos, hvl, hvu, a0, a1, ha, tokens, ht, ticks, bitmap, hb, active, hact,
      nft, nftId, hm, _, ⟨hc, -⟩, rfl, rfl, rfl, rfl⟩
    obtain ⟨-, -, -, -, rfl, -⟩ := PositionNft.mint_eq_ok.mp hm
    exact ⟨hs, hi, hlt, hpos, hvl, hvu, ha, ht, hb, hact, hm, hc, rfl, rfl⟩
  · rintro ⟨hs, hi, hlt, hpos, hvl, hvu, ha, ht, hb, hact, hm, hc, rfl, hw⟩
    exact ⟨hs, hi, hlt, hpos, hvl, hvu, _, _, ha, _, ht, _, _, hb, _, hact, _, _, hm, _, ⟨hc, rfl⟩,
      hw.symm, rfl, rfl, rfl⟩

/-! ### Removing liquidity -/

/-- Everything a successful `remove_liquidity` did to the position `position`. -/
structure Removed (w : World) (owner : Address) (id liquidity : ℕ) (position : Position)
    (w' : World) (amount0 amount1 : ℕ) : Prop where
  signed : owner ≠ w.self
  initialized : w.pool.initialized = true
  found : w.pool.positions.get? id = some position
  owned : requirePositionOwner w position owner = .ok ()
  positive : liquidity ≠ 0
  le : liquidity ≤ position.liquidity
  amounts : amountsForLiquidity liquidity (tickToSqrtPrice position.tickLower)
    (tickToSqrtPrice position.tickUpper) w.pool.sqrtPriceX96 = .ok (amount0, amount1)
  boundaries : ∃ delta, negI128 (asI128 liquidity) = .ok delta ∧
    updateBoundaries w.pool position.tickLower position.tickUpper delta
      = .ok (w'.pool.ticks, w'.pool.bitmap)
  active : w'.pool.liquidity
    = activeAfterRemove w.pool position.tickLower position.tickUpper liquidity
  transfers : transferBoth w w.self owner amount0 amount1 = .ok w'.tokens
  shrunk : shrinkPosition w id
    { position with owner, liquidity := position.liquidity - liquidity }
      = .ok (w'.pool.positions, w'.nft)
  world : w' =
    { w with
      pool := { w.pool with
        positions := w'.pool.positions
        ticks := w'.pool.ticks
        bitmap := w'.pool.bitmap
        liquidity := w'.pool.liquidity }
      nft := w'.nft
      tokens := w'.tokens }

theorem removeLiquidity_eq_ok {w w' : World} {owner : Address} {id liquidity amount0 amount1 : ℕ} :
    removeLiquidity w owner id liquidity = .ok (w', amount0, amount1) ↔
      ∃ position, Removed w owner id liquidity position w' amount0 amount1 := by
  simp only [removeLiquidity, requireAuth, ensureInitialized, bind_eq_ok, require_eq_ok,
    exists_const, getOr_eq_ok, pure_eq_ok, Prod.exists, Prod.mk.injEq, subU128_eq_ok]
  constructor
  · rintro ⟨hs, hi, position, hf, _, ho, ⟨hpos, hle⟩, a0, a1, ha, delta, hd, ticks, bitmap, hb,
      tokens, ht, _, ⟨-, rfl⟩, positions, nft, hsh, rfl, rfl, rfl⟩
    exact ⟨position, hs, hi, hf, ho, hpos, hle, ha, ⟨delta, hd, hb⟩, rfl, ht, hsh, rfl⟩
  · rintro ⟨position, hs, hi, hf, ho, hpos, hle, ha, ⟨delta, hd, hb⟩, hact, ht, hsh, hw⟩
    refine ⟨hs, hi, position, hf, _, ho, ⟨hpos, hle⟩, _, _, ha, delta, hd, _, _, hb, _, ht, _,
      ⟨hle, rfl⟩, _, _, hsh, ?_, rfl, rfl⟩
    rw [← hact]
    exact hw.symm

/-! ### Collecting fees -/

/-- The fee growth inside a position's range now. -/
def Pool.inside0 (p : Pool) (position : Position) : ℕ :=
  feeGrowthInside p.feeGrowthGlobal0 position.tickLower position.tickUpper p.currentTick

/-- The same for token 1. -/
def Pool.inside1 (p : Pool) (position : Position) : ℕ :=
  feeGrowthInside p.feeGrowthGlobal1 position.tickLower position.tickUpper p.currentTick

/-- Everything a successful `collect` did to the position `position`. -/
structure Collected (w : World) (owner : Address) (id : ℕ) (position : Position) (w' : World)
    (fee0 fee1 : ℕ) : Prop where
  signed : owner ≠ w.self
  initialized : w.pool.initialized = true
  found : w.pool.positions.get? id = some position
  owned : requirePositionOwner w position owner = .ok ()
  owed0 : feesOwed position.tokensOwed0 (w.pool.inside0 position) position.feeGrowthInside0Last
    position.liquidity = .ok fee0
  owed1 : feesOwed position.tokensOwed1 (w.pool.inside1 position) position.feeGrowthInside1Last
    position.liquidity = .ok fee1
  transfers : transferBoth w w.self owner fee0 fee1 = .ok w'.tokens
  world : w' =
    { w with
      pool := { w.pool with
        positions := w.pool.positions.replace id
          (position.collected owner (w.pool.inside0 position) (w.pool.inside1 position)) }
      tokens := w'.tokens }

theorem collect_eq_ok {w w' : World} {owner : Address} {id fee0 fee1 : ℕ} :
    collect w owner id = .ok (w', fee0, fee1) ↔
      ∃ position, Collected w owner id position w' fee0 fee1 := by
  simp only [collect, requireAuth, ensureInitialized, bind_eq_ok, require_eq_ok, exists_const,
    getOr_eq_ok, pure_eq_ok, Prod.mk.injEq]
  constructor
  · rintro ⟨hs, hi, position, hf, _, ho, f0, h0, f1, h1, tokens, ht, rfl, rfl, rfl⟩
    exact ⟨position, hs, hi, hf, ho, h0, h1, ht, rfl⟩
  · rintro ⟨position, hs, hi, hf, ho, h0, h1, ht, hw⟩
    exact ⟨hs, hi, position, hf, _, ho, _, h0, _, h1, _, ht, hw.symm, rfl, rfl⟩

/-! ### Swapping -/

/-- Everything a successful `swap` did. -/
structure Swapped (w : World) (sender : Address) (zeroForOne : Bool)
    (amountIn sqrtPriceLimit : ℕ) (w' : World) (outcome : SwapOutcome) : Prop where
  signed : sender ≠ w.self
  initialized : w.pool.initialized = true
  computed : computeSwap w.pool zeroForOne amountIn sqrtPriceLimit = .ok outcome
  transfers : transferSwap w sender zeroForOne outcome.inputPaid outcome.final.amountOut
    = .ok w'.tokens
  settled : settlePool w.pool outcome.final = .ok w'.pool
  outFits : outcome.final.amountOut ≤ i128Max
  recorded : recordObservation w outcome.final.sqrtPrice outcome.final.liquidity = .ok w'.oracle
  world : w' = { w with pool := w'.pool, tokens := w'.tokens, oracle := w'.oracle }

theorem swap_eq_ok {w w' : World} {sender : Address} {zeroForOne : Bool}
    {amountIn sqrtPriceLimit : ℕ} {delta0 delta1 : ℤ} {outcome : SwapOutcome} :
    swap w sender zeroForOne amountIn sqrtPriceLimit = .ok (w', delta0, delta1, outcome) ↔
      Swapped w sender zeroForOne amountIn sqrtPriceLimit w' outcome ∧
        outcome.inputPaid ≤ i128Max ∧
        delta0 = (if zeroForOne then (outcome.inputPaid : ℤ) else -outcome.final.amountOut) ∧
        delta1 = (if zeroForOne then -(outcome.final.amountOut : ℤ) else outcome.inputPaid) := by
  simp only [swap, requireAuth, ensureInitialized, bind_eq_ok, require_eq_ok, exists_const,
    pure_eq_ok, Prod.mk.injEq, toI128_eq_ok]
  constructor
  · rintro ⟨hs, hi, o, hc, tokens, ht, pool, hp, _, ⟨hpaid, rfl⟩, _, ⟨hout, rfl⟩, oracle, hr, rfl,
      rfl, rfl, rfl⟩
    exact ⟨⟨hs, hi, hc, ht, hp, hout, hr, rfl⟩, hpaid, rfl, rfl⟩
  · rintro ⟨⟨hs, hi, hc, ht, hp, hout, hr, hw⟩, hpaid, rfl, rfl⟩
    exact ⟨hs, hi, _, hc, _, ht, _, hp, _, ⟨hpaid, rfl⟩, _, ⟨hout, rfl⟩, _, hr, hw.symm, rfl, rfl,
      rfl⟩

/-! ### Every step -/

/-- The six ways a step can go. -/
inductive Stepped (w : World) : Event → World → Prop
  | add {owner : Address} {tickLower tickUpper : ℤ} {liquidity : U128} {w' : World}
      {id amount0 amount1 : ℕ}
      (h : Added w owner tickLower tickUpper liquidity w' id amount0 amount1) :
      Stepped w (.addLiquidity owner tickLower tickUpper liquidity, .added id amount0 amount1) w'
  | remove {owner : Address} {id : ℕ} {liquidity : U128} {position : Position} {w' : World}
      {amount0 amount1 : ℕ} (h : Removed w owner id liquidity position w' amount0 amount1) :
      Stepped w (.removeLiquidity owner id liquidity, .removed amount0 amount1) w'
  | swap {sender : Address} {zeroForOne : Bool} {amountIn limit : U128} {w' : World}
      {delta0 delta1 : ℤ} {outcome : SwapOutcome}
      (h : Swapped w sender zeroForOne amountIn limit w' outcome) :
      Stepped w (.swap sender zeroForOne amountIn limit, .swapped delta0 delta1 outcome) w'
  | collect {owner : Address} {id : ℕ} {position : Position} {w' : World} {fee0 fee1 : ℕ}
      (h : Collected w owner id position w' fee0 fee1) :
      Stepped w (.collect owner id, .collected fee0 fee1) w'
  | transferNft {src dst : Address} {tokenId : ℕ} {nft : PositionNft} (hs : src ≠ w.self)
      (h : w.nft.transfer src dst tokenId = .ok nft) :
      Stepped w (.transferNft src dst tokenId, .done) { w with nft }
  | closeLedger {seconds : ℕ} :
      Stepped w (.closeLedger seconds, .done) { w with now := w.now + seconds }

/-- **Inversion of a step.** -/
theorem Step.cases {w w' : World} {e : Event} (h : Step w e w') : Stepped w e w' := by
  obtain ⟨c, r⟩ := e
  cases c with
  | addLiquidity owner tickLower tickUpper liquidity =>
    simp only [Step, exec, bind_eq_ok, pure_eq_ok, Prod.exists, Prod.mk.injEq] at h
    obtain ⟨w₁, id, a0, a1, h, rfl, rfl⟩ := h
    exact .add (addLiquidity_eq_ok.mp h)
  | removeLiquidity owner id liquidity =>
    simp only [Step, exec, bind_eq_ok, pure_eq_ok, Prod.exists, Prod.mk.injEq] at h
    obtain ⟨w₁, a0, a1, h, rfl, rfl⟩ := h
    obtain ⟨position, h⟩ := removeLiquidity_eq_ok.mp h
    exact .remove h
  | swap sender zeroForOne amountIn limit =>
    simp only [Step, exec, bind_eq_ok, pure_eq_ok, Prod.exists, Prod.mk.injEq] at h
    obtain ⟨w₁, d0, d1, o, h, rfl, rfl⟩ := h
    exact .swap (swap_eq_ok.mp h).1
  | collect owner id =>
    simp only [Step, exec, bind_eq_ok, pure_eq_ok, Prod.exists, Prod.mk.injEq] at h
    obtain ⟨w₁, f0, f1, h, rfl, rfl⟩ := h
    obtain ⟨position, h⟩ := collect_eq_ok.mp h
    exact .collect h
  | transferNft src dst tokenId =>
    simp only [Step, exec, requireAuth, bind_eq_ok, require_eq_ok, exists_const, pure_eq_ok,
      Prod.mk.injEq] at h
    obtain ⟨hs, nft, h, rfl, rfl⟩ := h
    exact .transferNft hs h
  | closeLedger seconds =>
    simp only [Step, exec, pure_eq_ok, Prod.mk.injEq] at h
    obtain ⟨rfl, rfl⟩ := h
    exact .closeLedger

end Swyft.ClPool
