import Swyft.ClPool.TickTable
import Swyft.PositionNft
import Swyft.OracleAdapter.Model

/-!
# The concentrated-liquidity pool

The storage of `cl-pool` and its entry points. A pool acts on three other contracts: the position
NFT contract, the two token contracts and, once wired, an oracle adapter; `World` holds them side
by side, since one invocation changes all of them or none.

The storage keys are set together by `initialize`, so they are fields of one structure, with
`Initialized` as a flag. `NextPositionId` and the `Position(u64)` entries are one `IdStore`.

## Authorisation

An entry point that takes an address demands that address's signature. Accounts and other
contracts may sign; the pool itself never invokes its own entry points, so it never does.
-/

namespace Swyft.ClPool

open Checked

structure Position where
  owner : Address
  tickLower : ℤ
  tickUpper : ℤ
  liquidity : ℕ
  feeGrowthInside0Last : ℕ
  feeGrowthInside1Last : ℕ
  tokensOwed0 : ℕ
  tokensOwed1 : ℕ
  nftId : ℕ
  deriving DecidableEq, Repr

/-- The pool contract's storage. -/
structure Pool where
  initialized : Bool
  token0 : Address
  token1 : Address
  feeTier : ℕ
  tickSpacing : ℤ
  sqrtPriceX96 : ℕ
  currentTick : ℤ
  liquidity : ℕ
  feeGrowthGlobal0 : ℕ
  feeGrowthGlobal1 : ℕ
  nftContract : Address
  positions : IdStore Position
  ticks : Ticks
  bitmap : Bitmap

/-- The pool and the contracts it acts on. -/
structure World where
  /-- The pool contract's own address. -/
  self : Address
  pool : Pool
  nft : PositionNft
  tokens : Tokens
  /-- The adapter wired by `set_oracle`, if any. -/
  oracle : Option OracleAdapter
  /-- The ledger's timestamp. -/
  now : ℕ

/-- `require_auth` of an address other than the pool's own. -/
def requireAuth (w : World) (signer : Address) : Res Unit := require (signer ≠ w.self) .unauthorized

/-- `ensure_initialized`. -/
def ensureInitialized (p : Pool) : Res Unit :=
  require (p.initialized = true) (poolError .notInitialized)

/-- The pool's storage before `initialize`; only the flag is ever read. -/
def Pool.deployed : Pool where
  initialized := false
  token0 := ⟨0⟩
  token1 := ⟨0⟩
  feeTier := 0
  tickSpacing := 0
  sqrtPriceX96 := 0
  currentTick := 0
  liquidity := 0
  feeGrowthGlobal0 := 0
  feeGrowthGlobal1 := 0
  nftContract := ⟨0⟩
  positions := .empty
  ticks := fun _ => none
  bitmap := fun _ => none

/-- `initialize(token_0, token_1, fee_tier, sqrt_price_x96, nft_contract)`. No entry point stores
a position before the flag is set, so `NextPositionId` starts over an empty table. -/
def initializePool (w : World) (token0 token1 : Address) (feeTier sqrtPriceX96 : ℕ)
    (nftContract : Address) : Res World := do
  require (w.pool.initialized = false) (poolError .alreadyInitialized)
  let linkedMinter ← w.nft.getMinter
  require (linkedMinter = w.self) (poolError .invalidNftLink)
  require (feeTier = 500 ∨ feeTier = 3000 ∨ feeTier = 10000) (poolError .invalidFeeTier)
  let pool : Pool :=
    { w.pool with
      initialized := true
      token0
      token1
      feeTier
      tickSpacing := feeTierToTickSpacing feeTier
      sqrtPriceX96
      currentTick := sqrtPriceToTick sqrtPriceX96
      liquidity := 0
      feeGrowthGlobal0 := 0
      feeGrowthGlobal1 := 0
      nftContract
      positions := .empty }
  pure { w with pool }

/-! ### Adding liquidity -/

/-- A transfer of `amount as i128`, skipped when the amount is zero. -/
def transferPositive (tokens : Tokens) (token src dst : Address) (amount : ℕ) : Res Tokens :=
  if 0 < amount then tokens.transfer token src dst (asI128 amount) else pure tokens

/-- The two transfers of `add_liquidity`, `remove_liquidity` and `collect`. -/
def transferBoth (w : World) (src dst : Address) (amount0 amount1 : ℕ) : Res Tokens := do
  let tokens ← transferPositive w.tokens w.pool.token0 src dst amount0
  transferPositive tokens w.pool.token1 src dst amount1

/-- The four tick updates of `add_liquidity` and `remove_liquidity`. -/
def updateBoundaries (p : Pool) (tickLower tickUpper liquidityDelta : ℤ) :
    Res (Ticks × Bitmap) := do
  let (ticks, lowerFlipped) ← updateTick p.ticks tickLower liquidityDelta false
  let (ticks, upperFlipped) ← updateTick ticks tickUpper liquidityDelta true
  let bitmap := flipBitmap p.bitmap tickLower p.tickSpacing lowerFlipped
  let bitmap := flipBitmap bitmap tickUpper p.tickSpacing upperFlipped
  pure (ticks, bitmap)

/-- The active liquidity once `liquidity` has been added to a range. -/
def activeAfterAdd (p : Pool) (tickLower tickUpper : ℤ) (liquidity : ℕ) : Res ℕ :=
  if tickLower ≤ p.currentTick ∧ p.currentTick < tickUpper then addU128 p.liquidity liquidity
  else pure p.liquidity

/-- The record `add_liquidity` stores: nothing owed yet, and the snapshots at the growth inside the
range now. -/
def newPosition (p : Pool) (owner : Address) (tickLower tickUpper : ℤ) (liquidity nftId : ℕ) :
    Position where
  owner := owner
  tickLower := tickLower
  tickUpper := tickUpper
  liquidity := liquidity
  feeGrowthInside0Last := feeGrowthInside p.feeGrowthGlobal0 tickLower tickUpper p.currentTick
  feeGrowthInside1Last := feeGrowthInside p.feeGrowthGlobal1 tickLower tickUpper p.currentTick
  tokensOwed0 := 0
  tokensOwed1 := 0
  nftId := nftId

/-- `add_liquidity(owner, tick_lower, tick_upper, liquidity)`, returning the position's
identifier and the two amounts charged. -/
def addLiquidity (w : World) (owner : Address) (tickLower tickUpper : ℤ) (liquidity : ℕ) :
    Res (World × ℕ × ℕ × ℕ) := do
  requireAuth w owner
  let p := w.pool
  ensureInitialized p
  require (tickLower < tickUpper) (poolError .invalidTickRange)
  require (liquidity ≠ 0) (poolError .zeroLiquidity)
  validateTick tickLower p.tickSpacing
  validateTick tickUpper p.tickSpacing
  let (amount0, amount1) ← amountsForLiquidity liquidity (tickToSqrtPrice tickLower)
    (tickToSqrtPrice tickUpper) p.sqrtPriceX96
  let tokens ← transferBoth w owner w.self amount0 amount1
  let (ticks, bitmap) ← updateBoundaries p tickLower tickUpper (asI128 liquidity)
  let active ← activeAfterAdd p tickLower tickUpper liquidity
  let (nft, nftId) ← w.nft.mint w.self w.now owner w.self tickLower tickUpper liquidity
  let positionId := p.positions.next
  let position := newPosition p owner tickLower tickUpper liquidity nftId
  let _ ← incU64 positionId
  let pool : Pool :=
    { p with positions := p.positions.push position, ticks, bitmap, liquidity := active }
  pure ({ w with pool, nft, tokens }, positionId, amount0, amount1)

/-! ### Swapping -/

/-- The local variables of `swap`'s loop, and the tick table it writes through `cross_tick`. -/
structure SwapState where
  amountRemaining : ℕ
  amountOut : ℕ
  feeGrowthDelta0 : ℕ
  feeGrowthDelta1 : ℕ
  sqrtPrice : ℕ
  liquidity : ℕ
  currentTick : ℤ
  ticksCrossed : ℕ
  ticks : Ticks

/-- `accumulate_segment_fee`. -/
def accumulateSegmentFee (feeGrowthDelta0 feeGrowthDelta1 : ℕ) (zeroForOne : Bool)
    (amountInSegment feeTier liquidity : ℕ) : Res (ℕ × ℕ) := do
  if amountInSegment = 0 ∨ liquidity = 0 then pure (feeGrowthDelta0, feeGrowthDelta1)
  else do
    let feeAmount ← checkedFee amountInSegment feeTier
    if feeAmount = 0 then pure (feeGrowthDelta0, feeGrowthDelta1)
    else do
      let scaled ← fitU 128 (poolError .overflow) (feeAmount * Q96)
      let growth := scaled / liquidity
      if zeroForOne then do
        let delta ← fitU 128 (poolError .overflow) (feeGrowthDelta0 + growth)
        pure (delta, feeGrowthDelta1)
      else do
        let delta ← fitU 128 (poolError .overflow) (feeGrowthDelta1 + growth)
        pure (feeGrowthDelta0, delta)

/-- `target_sqrt`: the price of the next initialised tick, or of the last tick when there is none,
tightened to the caller's limit. -/
def swapTarget (zeroForOne : Bool) (sqrtPriceLimit : ℕ) (nextTick : ℤ) (initialized : Bool) : ℕ :=
  let target :=
    if initialized then tickToSqrtPrice nextTick
    else if zeroForOne then tickToSqrtPrice minTick
    else tickToSqrtPrice maxTick
  if zeroForOne ∧ target ≤ sqrtPriceLimit then sqrtPriceLimit
  else if ¬ zeroForOne ∧ sqrtPriceLimit ≤ target then sqrtPriceLimit
  else target

/-- `amount_consumed`: what a full move to `target` takes in, rounded up. -/
def amountConsumed (zeroForOne : Bool) (sqrtPrice target liquidity : ℕ) : ℕ :=
  if zeroForOne then getAmount0Delta sqrtPrice target liquidity true
  else getAmount1Delta sqrtPrice target liquidity true

/-- `amount_to_cross`, `partial_out`: what a move to `target` pays out, rounded down. -/
def amountPaid (zeroForOne : Bool) (sqrtPrice target liquidity : ℕ) : ℕ :=
  if zeroForOne then getAmount1Delta sqrtPrice target liquidity false
  else getAmount0Delta sqrtPrice target liquidity false

/-- `at_limit`. -/
def atLimit (zeroForOne : Bool) (sqrtPrice sqrtPriceLimit : ℕ) : Prop :=
  zeroForOne ∧ sqrtPrice ≤ sqrtPriceLimit ∨ ¬ zeroForOne ∧ sqrtPriceLimit ≤ sqrtPrice

instance (zeroForOne : Bool) (sqrtPrice sqrtPriceLimit : ℕ) :
    Decidable (atLimit zeroForOne sqrtPrice sqrtPriceLimit) :=
  inferInstanceAs (Decidable (_ ∨ _))

/-- `search_from`. -/
def searchFrom (zeroForOne : Bool) (currentTick : ℤ) : Res ℤ :=
  if zeroForOne then fitI32 (currentTick - 1) else pure currentTick

/-- The first half of a round: the next tick, whether it is initialised, and the price to move
to. -/
def findTarget (p : Pool) (zeroForOne : Bool) (sqrtPriceLimit : ℕ) (st : SwapState) :
    Res (ℤ × Bool × ℕ) := do
  let start ← searchFrom zeroForOne st.currentTick
  let (nextTick, initialized) ← nextInitializedTick p.bitmap start p.tickSpacing zeroForOne
  pure (nextTick, initialized, swapTarget zeroForOne sqrtPriceLimit nextTick initialized)

/-- A full move of the price to `target`, before the tick there is crossed. -/
def fullMove (p : Pool) (zeroForOne : Bool) (st : SwapState) (target : ℕ) : Res SwapState := do
  let consumed := amountConsumed zeroForOne st.sqrtPrice target st.liquidity
  let amountOut ← fitU 128 (poolError .overflow)
    (st.amountOut + amountPaid zeroForOne st.sqrtPrice target st.liquidity)
  let amountRemaining ← subU (poolError .overflow) st.amountRemaining consumed
  let (feeGrowthDelta0, feeGrowthDelta1) ← accumulateSegmentFee st.feeGrowthDelta0
    st.feeGrowthDelta1 zeroForOne consumed p.feeTier st.liquidity
  pure { st with
    amountRemaining, amountOut, feeGrowthDelta0, feeGrowthDelta1, sqrtPrice := target }

/-- Crossing an initialised tick. -/
def crossNext (p : Pool) (zeroForOne : Bool) (st : SwapState) (nextTick : ℤ) : Res SwapState := do
  let net ← netAtTick st.ticks nextTick
  let liquidity := if zeroForOne then satSub st.liquidity net else satAdd 128 st.liquidity net
  pure { st with
    liquidity
    ticks := crossTick st.ticks nextTick p.feeGrowthGlobal0 p.feeGrowthGlobal1
    currentTick := nextTick
    ticksCrossed := st.ticksCrossed + 1 }

/-- The step inside a segment that the remaining input does not exhaust. The price it computes is
used for the amount paid and then dropped: `sqrt_price` keeps its value. -/
def partialMove (p : Pool) (zeroForOne : Bool) (st : SwapState) : Res SwapState := do
  let nextSqrt ←
    nextSqrtPriceFromInput st.sqrtPrice st.liquidity st.amountRemaining zeroForOne
  let amountOut ← fitU 128 (poolError .overflow)
    (st.amountOut + amountPaid zeroForOne st.sqrtPrice nextSqrt st.liquidity)
  let (feeGrowthDelta0, feeGrowthDelta1) ← accumulateSegmentFee st.feeGrowthDelta0
    st.feeGrowthDelta1 zeroForOne st.amountRemaining p.feeTier st.liquidity
  pure { st with amountRemaining := 0, amountOut, feeGrowthDelta0, feeGrowthDelta1 }

/-- One round of the loop, and whether the loop goes on. -/
def swapStep (p : Pool) (zeroForOne : Bool) (sqrtPriceLimit : ℕ) (st : SwapState) :
    Res (SwapState × Bool) := do
  let (nextTick, initialized, target) ← findTarget p zeroForOne sqrtPriceLimit st
  if amountConsumed zeroForOne st.sqrtPrice target st.liquidity ≤ st.amountRemaining then do
    let moved ← fullMove p zeroForOne st target
    if moved.amountRemaining = 0 ∨ atLimit zeroForOne moved.sqrtPrice sqrtPriceLimit
        ∨ initialized = false then
      pure (moved, false)
    else do
      let crossed ← crossNext p zeroForOne moved nextTick
      pure (crossed, decide (crossed.liquidity ≠ 0))
  else do
    let moved ← partialMove p zeroForOne st
    pure (moved, false)

/-- The loop of `swap`. Every round that goes on crosses a tick, so `rounds` counts down from
`MAX_SWAP_ITERATIONS` as `ticks_crossed` counts up to it. -/
def swapLoop (p : Pool) (zeroForOne : Bool) (sqrtPriceLimit : ℕ) :
    (rounds : ℕ) → SwapState → Res SwapState
  | 0, st =>
    if st.amountRemaining = 0 then pure st else .error (poolError .insufficientLiquidity)
  | rounds + 1, st =>
    if st.amountRemaining = 0 then pure st
    else do
      let (st', goesOn) ← swapStep p zeroForOne sqrtPriceLimit st
      if goesOn then swapLoop p zeroForOne sqrtPriceLimit rounds st' else pure st'

/-- What `swap` has worked out when it comes to move tokens. -/
structure SwapOutcome where
  final : SwapState
  tradedBase : ℕ
  feeOnTraded : ℕ
  inputPaid : ℕ

/-- The loop's variables before the first round. -/
def swapStart (p : Pool) (amountRemaining : ℕ) : SwapState where
  amountRemaining
  amountOut := 0
  feeGrowthDelta0 := 0
  feeGrowthDelta1 := 0
  sqrtPrice := p.sqrtPriceX96
  liquidity := p.liquidity
  currentTick := p.currentTick
  ticksCrossed := 0
  ticks := p.ticks

/-- The input left after the fee on it. -/
def netInput (p : Pool) (amountIn : ℕ) : Res ℕ := do
  require (amountIn ≤ i128Max) (poolError .overflow)
  let feeAmount ← checkedFee amountIn p.feeTier
  subU (poolError .overflow) amountIn feeAmount

/-- `swap` up to its transfers: the loop, then the charge for what was traded. -/
def computeSwap (p : Pool) (zeroForOne : Bool) (amountIn sqrtPriceLimit : ℕ) :
    Res SwapOutcome := do
  let net ← netInput p amountIn
  require (net ≠ 0) (poolError .zeroLiquidity)
  require (p.liquidity ≠ 0) (poolError .zeroLiquidity)
  let final ← swapLoop p zeroForOne sqrtPriceLimit maxSwapIterations (swapStart p net)
  let tradedBase ← subU (poolError .overflow) net final.amountRemaining
  let feeOnTraded ← checkedFee tradedBase p.feeTier
  let inputPaid ← fitU 127 (poolError .overflow) (tradedBase + feeOnTraded)
  pure { final, tradedBase, feeOnTraded, inputPaid }

/-- A global accumulator with a swap's growth rolled in. -/
def rollFeeGrowth (feeGrowthGlobal delta : ℕ) : Res ℕ :=
  if 0 < delta then addU128 feeGrowthGlobal delta else pure feeGrowthGlobal

/-- The pool's storage after a swap. -/
def settlePool (p : Pool) (final : SwapState) : Res Pool := do
  let feeGrowthGlobal0 ← rollFeeGrowth p.feeGrowthGlobal0 final.feeGrowthDelta0
  let feeGrowthGlobal1 ← rollFeeGrowth p.feeGrowthGlobal1 final.feeGrowthDelta1
  pure { p with
    feeGrowthGlobal0
    feeGrowthGlobal1
    sqrtPriceX96 := final.sqrtPrice
    currentTick := sqrtPriceToTick final.sqrtPrice
    liquidity := final.liquidity
    ticks := final.ticks }

/-- The transfers of `swap`: the input to the pool, then the output, if any, to the sender. -/
def transferSwap (w : World) (sender : Address) (zeroForOne : Bool) (inputPaid amountOut : ℕ) :
    Res Tokens := do
  let tokenIn := if zeroForOne then w.pool.token0 else w.pool.token1
  let tokenOut := if zeroForOne then w.pool.token1 else w.pool.token0
  let paid ← toI128 inputPaid
  let tokens ← w.tokens.transfer tokenIn sender w.self paid
  if 0 < amountOut then do
    let out ← toI128 amountOut
    tokens.transfer tokenOut w.self sender out
  else pure tokens

/-- The call to the wired adapter's `write_observation`. -/
def recordObservation (w : World) (sqrtPrice liquidity : ℕ) : Res (Option OracleAdapter) :=
  match w.oracle with
  | none => pure none
  | some oracle => do
    let oracle' ← oracle.writeObservation w.self w.now sqrtPrice liquidity
    pure (some oracle')

/-- `swap(sender, zero_for_one, amount_in, sqrt_price_limit_x96)`, returning the two deltas and,
for the accounts of a run, the outcome they come from. -/
def swap (w : World) (sender : Address) (zeroForOne : Bool) (amountIn sqrtPriceLimit : ℕ) :
    Res (World × ℤ × ℤ × SwapOutcome) := do
  requireAuth w sender
  ensureInitialized w.pool
  let outcome ← computeSwap w.pool zeroForOne amountIn sqrtPriceLimit
  let tokens ← transferSwap w sender zeroForOne outcome.inputPaid outcome.final.amountOut
  let pool ← settlePool w.pool outcome.final
  let paid ← toI128 outcome.inputPaid
  let out ← toI128 outcome.final.amountOut
  let oracle ← recordObservation w outcome.final.sqrtPrice outcome.final.liquidity
  pure ({ w with pool, tokens, oracle }, if zeroForOne then paid else -out,
    if zeroForOne then -out else paid, outcome)

/-! ### Collecting fees and removing liquidity -/

/-- `require_position_owner`. -/
def requirePositionOwner (w : World) (position : Position) (owner : Address) : Res Unit := do
  let m ← getOr (poolError .unauthorized) (w.nft.getPosition position.nftId)
  require (m.owner = owner ∧ m.pool = w.self ∧ m.tickLower = position.tickLower
    ∧ m.tickUpper = position.tickUpper ∧ m.liquidity = position.liquidity)
    (poolError .unauthorized)

/-- The fees of one token that `collect` pays: `tokens_owed` and the growth since the snapshot,
shared out over the position's liquidity. -/
def feesOwed (tokensOwed inside insideLast liquidity : ℕ) : Res ℕ := do
  let product ← mulU128 (wrapSub 128 inside insideLast) liquidity
  addU128 tokensOwed (product / Q96)

/-- The record `collect` stores back. -/
def Position.collected (position : Position) (owner : Address) (inside0 inside1 : ℕ) : Position :=
  { position with
    owner
    feeGrowthInside0Last := inside0
    feeGrowthInside1Last := inside1
    tokensOwed0 := 0
    tokensOwed1 := 0 }

/-- `collect(owner, position_id)`, returning the two fees paid. -/
def collect (w : World) (owner : Address) (positionId : ℕ) : Res (World × ℕ × ℕ) := do
  requireAuth w owner
  let p := w.pool
  ensureInitialized p
  let position ← getOr (poolError .positionNotFound) (p.positions.get? positionId)
  requirePositionOwner w position owner
  let inside0 :=
    feeGrowthInside p.feeGrowthGlobal0 position.tickLower position.tickUpper p.currentTick
  let inside1 :=
    feeGrowthInside p.feeGrowthGlobal1 position.tickLower position.tickUpper p.currentTick
  let owed0 ← feesOwed position.tokensOwed0 inside0 position.feeGrowthInside0Last
    position.liquidity
  let owed1 ← feesOwed position.tokensOwed1 inside1 position.feeGrowthInside1Last
    position.liquidity
  let position' := position.collected owner inside0 inside1
  let tokens ← transferBoth w w.self owner owed0 owed1
  let pool : Pool := { p with positions := p.positions.replace positionId position' }
  pure ({ w with pool, tokens }, owed0, owed1)

/-- The end of `remove_liquidity`: the position and its NFT are dropped when nothing is left, and
both record the smaller liquidity otherwise. -/
def shrinkPosition (w : World) (positionId : ℕ) (position : Position) :
    Res (IdStore Position × PositionNft) := do
  if position.liquidity = 0 then
    let nft ← w.nft.burn w.self position.nftId
    pure (w.pool.positions.erase positionId, nft)
  else
    let nft ← w.nft.updateLiquidity w.self position.nftId position.liquidity
    pure (w.pool.positions.replace positionId position, nft)

/-- The active liquidity once `liquidity` has been taken from a range. -/
def activeAfterRemove (p : Pool) (tickLower tickUpper : ℤ) (liquidity : ℕ) : ℕ :=
  if tickLower ≤ p.currentTick ∧ p.currentTick < tickUpper then satSub p.liquidity liquidity
  else p.liquidity

/-- `remove_liquidity(owner, position_id, liquidity_to_remove)`, returning the two amounts
paid. -/
def removeLiquidity (w : World) (owner : Address) (positionId liquidityToRemove : ℕ) :
    Res (World × ℕ × ℕ) := do
  requireAuth w owner
  let p := w.pool
  ensureInitialized p
  let position ← getOr (poolError .positionNotFound) (p.positions.get? positionId)
  requirePositionOwner w position owner
  require (liquidityToRemove ≠ 0 ∧ liquidityToRemove ≤ position.liquidity)
    (poolError .zeroLiquidity)
  let (amount0, amount1) ← amountsForLiquidity liquidityToRemove
    (tickToSqrtPrice position.tickLower) (tickToSqrtPrice position.tickUpper) p.sqrtPriceX96
  let liquidityDelta ← negI128 (asI128 liquidityToRemove)
  let (ticks, bitmap) ←
    updateBoundaries p position.tickLower position.tickUpper liquidityDelta
  let active := activeAfterRemove p position.tickLower position.tickUpper liquidityToRemove
  let tokens ← transferBoth w w.self owner amount0 amount1
  let liquidity ← subU128 position.liquidity liquidityToRemove
  let (positions, nft) ← shrinkPosition w positionId { position with owner, liquidity }
  let pool : Pool := { p with positions, ticks, bitmap, liquidity := active }
  pure ({ w with pool, nft, tokens }, amount0, amount1)

/-! ### The system -/

/-- What can happen to the pool and its NFT contract, one invocation at a time. -/
inductive Call where
  | addLiquidity (owner : Address) (tickLower tickUpper : ℤ) (liquidity : U128)
  | removeLiquidity (owner : Address) (positionId : ℕ) (liquidityToRemove : U128)
  | swap (sender : Address) (zeroForOne : Bool) (amountIn sqrtPriceLimit : U128)
  | collect (owner : Address) (positionId : ℕ)
  /-- `transfer` of the NFT contract, signed by `src`. -/
  | transferNft (src dst : Address) (tokenId : ℕ)
  /-- The ledger closes and time passes. -/
  | closeLedger (seconds : ℕ)

/-- What a successful invocation returned. -/
inductive Receipt where
  | added (positionId amount0 amount1 : ℕ)
  | removed (amount0 amount1 : ℕ)
  | swapped (delta0 delta1 : ℤ) (outcome : SwapOutcome)
  | collected (fee0 fee1 : ℕ)
  | done

/-- One invocation. -/
def exec (w : World) : Call → Res (World × Receipt)
  | .addLiquidity owner tickLower tickUpper liquidity => do
    let (w', id, amount0, amount1) ← addLiquidity w owner tickLower tickUpper liquidity
    pure (w', .added id amount0 amount1)
  | .removeLiquidity owner id liquidityToRemove => do
    let (w', amount0, amount1) ← removeLiquidity w owner id liquidityToRemove
    pure (w', .removed amount0 amount1)
  | .swap sender zeroForOne amountIn limit => do
    let (w', delta0, delta1, outcome) ← swap w sender zeroForOne amountIn limit
    pure (w', .swapped delta0 delta1 outcome)
  | .collect owner id => do
    let (w', fee0, fee1) ← collect w owner id
    pure (w', .collected fee0 fee1)
  | .transferNft src dst tokenId => do
    requireAuth w src
    let nft ← w.nft.transfer src dst tokenId
    pure ({ w with nft }, .done)
  | .closeLedger seconds => pure ({ w with now := w.now + seconds }, .done)

end Swyft.ClPool
