import Swyft.PoolContract.Price
import Swyft.ClPool.Model

/-!
# The pool contract

The storage of `packages/contract/contracts/pool` and the four entry points its users call. Unlike
`cl-pool`, it is told everything by its callers: a position record holds a liquidity and two fee
snapshots, but neither its owner nor its range, and `swap` and `collect` move no tokens.

`KEY_STATE` is set once, by `initialize`, so it is a record with a flag. `World` adds the pool's own
address, the token contracts, the oracle adapter wired by `set_oracle` and the ledger's time.

## What is deliberately absent

`flip_tick`, `cross_tick` and `set_price` are entry points as well, open to anyone. The runs here
are those of `mint`, `burn`, `swap` and `collect`; `flip_tick` is modelled as the part of `mint` and
`burn` that it is.
-/

namespace Swyft.PoolContract

open Checked
open ClPool (Q96 minTick maxTick Bitmap tickPosition bitmapWord feeTierToTickSpacing
  transferPositive)

structure TickInfo where
  liquidityGross : ℕ
  liquidityNet : ℤ
  feeGrowthOutside0 : ℕ
  feeGrowthOutside1 : ℕ
  initialized : Bool
  deriving DecidableEq, Repr

/-- The map under `KEY_TICKS`. -/
abbrev Ticks := ℤ → Option TickInfo

structure Position where
  liquidity : ℕ
  feeGrowthInside0Last : ℕ
  feeGrowthInside1Last : ℕ
  deriving DecidableEq, Repr

structure PoolState where
  sqrtPriceX96 : ℕ
  tick : ℤ
  liquidity : ℕ
  feeGrowthGlobal0 : ℕ
  feeGrowthGlobal1 : ℕ
  feeTier : ℕ
  tickSpacing : ℤ
  token0 : Address
  token1 : Address
  deriving DecidableEq, Repr

/-- The contract's storage. -/
structure Pool where
  initialized : Bool
  state : PoolState
  ticks : Ticks
  bitmap : Bitmap
  /-- The entries under `(KEY_POSITIONS, position_id)`. -/
  positions : ℕ → Option Position

/-- The pool and the contracts it acts on. -/
structure World where
  /-- The pool contract's own address. -/
  self : Address
  pool : Pool
  tokens : Tokens
  /-- The adapter wired by `set_oracle`, if any. -/
  oracle : Option OracleAdapter
  /-- The ledger's timestamp. -/
  now : ℕ

/-- `require_auth` of an address other than the pool's own. -/
def requireAuth (w : World) (signer : Address) : Res Unit := require (signer ≠ w.self) .unauthorized

/-- `load_state`. -/
def loadState (p : Pool) : Res PoolState := do
  require (p.initialized = true) (poolError .notInitialized)
  pure p.state

/-- The storage before `initialize`; only the flag is ever read. -/
def Pool.deployed : Pool where
  initialized := false
  state := ⟨0, 0, 0, 0, 0, 0, 0, ⟨0⟩, ⟨0⟩⟩
  ticks := fun _ => none
  bitmap := fun _ => none
  positions := fun _ => none

/-- `initialize(token_0, token_1, sqrt_price_x96, fee_tier)`. -/
def initializePool (p : Pool) (token0 token1 : Address) (sqrtPriceX96 feeTier : ℕ) : Res Pool := do
  require (p.initialized = false) (poolError .alreadyInitialized)
  pure { p with
    initialized := true
    state :=
      { sqrtPriceX96
        tick := sqrtPriceToTick sqrtPriceX96
        liquidity := 0
        feeGrowthGlobal0 := 0
        feeGrowthGlobal1 := 0
        feeTier
        tickSpacing := feeTierToTickSpacing feeTier
        token0
        token1 } }

/-! ### Ticks -/

/-- `validate_tick`. -/
def validateTick (tick tickSpacing : ℤ) : Res Unit :=
  require (minTick ≤ tick ∧ tick ≤ maxTick ∧ tick.tmod tickSpacing = 0) (poolError .invalidTick)

/-- `ticks.get(tick)`, or a fresh entry. -/
def readTick (ticks : Ticks) (tick : ℤ) : TickInfo := (ticks tick).getD ⟨0, 0, 0, 0, false⟩

/-- `gross_after` of `update_tick`. -/
def grossAfter (gross : ℕ) (liquidityDelta : ℤ) : Res ℕ :=
  if 0 ≤ liquidityDelta then fitU 128 (poolError .overflow) (gross + liquidityDelta.toNat)
  else do
    let removed ← negI128 liquidityDelta
    subU (poolError .insufficientLiquidity) gross removed.toNat

/-- The entry `update_tick` stores: a tick that becomes active at or below the current one starts
its outside growth at the global growth. -/
def touchTick (info : TickInfo) (tick : ℤ) (gross : ℕ) (net : ℤ) (state : PoolState) : TickInfo :=
  let activated := info.liquidityGross = 0 ∧ 0 < gross
  let below := activated ∧ tick ≤ state.tick
  { liquidityGross := gross
    liquidityNet := net
    feeGrowthOutside0 := if below then state.feeGrowthGlobal0 else info.feeGrowthOutside0
    feeGrowthOutside1 := if below then state.feeGrowthGlobal1 else info.feeGrowthOutside1
    initialized := if gross = 0 then false else if activated then true else info.initialized }

/-- `update_tick`: the new table, and whether the tick's initialised status flipped. An entry whose
gross liquidity has gone back to zero stays in the table. -/
def updateTick (ticks : Ticks) (tick liquidityDelta : ℤ) (upper : Bool) (state : PoolState) :
    Res (Ticks × Bool) := do
  let info := readTick ticks tick
  let gross ← grossAfter info.liquidityGross liquidityDelta
  let net ← fitI 127 (poolError .overflow)
    (if upper then info.liquidityNet - liquidityDelta else info.liquidityNet + liquidityDelta)
  pure (Function.update ticks tick (some (touchTick info tick gross net state)),
    decide (gross = 0) != decide (info.liquidityGross = 0))

/-- `flip_tick`, where `flipped` asks for it. -/
def flipTick (bitmap : Bitmap) (tick tickSpacing : ℤ) (flipped : Bool) : Res Bitmap :=
  if flipped then do
    validateTick tick tickSpacing
    let position := tickPosition (tick.tdiv tickSpacing)
    pure (Function.update bitmap position.1
      (some (bitmapWord bitmap position.1 ^^^ 2 ^ position.2)))
  else pure bitmap

/-- The tick updates of `mint` and `burn`. -/
def updateBoundaries (p : Pool) (tickLower tickUpper liquidityDelta : ℤ) :
    Res (Ticks × Bitmap) := do
  let (ticks, lowerFlipped) ← updateTick p.ticks tickLower liquidityDelta false p.state
  let (ticks, upperFlipped) ← updateTick ticks tickUpper liquidityDelta true p.state
  let bitmap ← flipTick p.bitmap tickLower p.state.tickSpacing lowerFlipped
  let bitmap ← flipTick bitmap tickUpper p.state.tickSpacing upperFlipped
  pure (ticks, bitmap)

/-! ### Fee growth -/

/-- One component of `get_fee_growth_inside`. -/
def feeGrowthInside (feeGrowthGlobal outsideLower outsideUpper : ℕ)
    (tickLower tickUpper tickCurrent : ℤ) : ℕ :=
  let below :=
    if tickLower ≤ tickCurrent then outsideLower else wrapSub 128 feeGrowthGlobal outsideLower
  let above :=
    if tickCurrent < tickUpper then outsideUpper else wrapSub 128 feeGrowthGlobal outsideUpper
  wrapSub 128 (wrapSub 128 feeGrowthGlobal below) above

/-- `get_fee_growth_inside` of token 0. -/
def inside0 (ticks : Ticks) (tickLower tickUpper : ℤ) (state : PoolState) : ℕ :=
  feeGrowthInside state.feeGrowthGlobal0 (readTick ticks tickLower).feeGrowthOutside0
    (readTick ticks tickUpper).feeGrowthOutside0 tickLower tickUpper state.tick

/-- `get_fee_growth_inside` of token 1. -/
def inside1 (ticks : Ticks) (tickLower tickUpper : ℤ) (state : PoolState) : ℕ :=
  feeGrowthInside state.feeGrowthGlobal1 (readTick ticks tickLower).feeGrowthOutside1
    (readTick ticks tickUpper).feeGrowthOutside1 tickLower tickUpper state.tick

/-! ### Adding and removing liquidity -/

/-- The checks `mint` and `burn` make on their arguments. -/
def checkRange (p : Pool) (tickLower tickUpper : ℤ) (amount : ℕ) : Res Unit := do
  require (amount ≠ 0) (poolError .zeroLiquidity)
  let state ← loadState p
  validateTick tickLower state.tickSpacing
  validateTick tickUpper state.tickSpacing
  require (tickLower < tickUpper) (poolError .invalidTickRange)

/-- The two amounts of a piece of liquidity at the current price. -/
def amountsOf (state : PoolState) (tickLower tickUpper : ℤ) (amount : ℕ) : ℕ × ℕ :=
  (getAmount0 amount (tickToSqrtPrice tickLower) (tickToSqrtPrice tickUpper) state.sqrtPriceX96,
    getAmount1 amount (tickToSqrtPrice tickLower) (tickToSqrtPrice tickUpper) state.sqrtPriceX96)

/-- The two transfers of `mint` and `burn`. -/
def transferBoth (w : World) (src dst : Address) (amounts : ℕ × ℕ) : Res Tokens := do
  let tokens ← transferPositive w.tokens w.pool.state.token0 src dst amounts.1
  transferPositive tokens w.pool.state.token1 src dst amounts.2

/-- The current tick is in the range. -/
def PoolState.inRange (state : PoolState) (tickLower tickUpper : ℤ) : Prop :=
  tickLower ≤ state.tick ∧ state.tick < tickUpper

instance (state : PoolState) (tickLower tickUpper : ℤ) :
    Decidable (state.inRange tickLower tickUpper) :=
  inferInstanceAs (Decidable (_ ∧ _))

/-- The active liquidity once `amount` has been added to a range. -/
def activeAfterMint (state : PoolState) (tickLower tickUpper : ℤ) (amount : ℕ) : Res ℕ :=
  if state.inRange tickLower tickUpper then fitU 128 (poolError .overflow) (state.liquidity + amount)
  else pure state.liquidity

/-- The active liquidity once `amount` has been taken from a range. -/
def activeAfterBurn (state : PoolState) (tickLower tickUpper : ℤ) (amount : ℕ) : Res ℕ :=
  if state.inRange tickLower tickUpper then
    subU (poolError .insufficientLiquidity) state.liquidity amount
  else pure state.liquidity

/-- `mint(sender, position_id, tick_lower, tick_upper, amount)`. An existing record keeps its
snapshots. -/
def mint (w : World) (sender : Address) (positionId : ℕ) (tickLower tickUpper : ℤ) (amount : ℕ) :
    Res (World × ℕ × ℕ) := do
  requireAuth w sender
  let p := w.pool
  checkRange p tickLower tickUpper amount
  let (ticks, bitmap) ← updateBoundaries p tickLower tickUpper (asI128 amount)
  let active ← activeAfterMint p.state tickLower tickUpper amount
  let position := (p.positions positionId).getD
    ⟨0, inside0 ticks tickLower tickUpper p.state, inside1 ticks tickLower tickUpper p.state⟩
  let liquidity ← fitU 128 (poolError .overflow) (position.liquidity + amount)
  let amounts := amountsOf p.state tickLower tickUpper amount
  let pool : Pool :=
    { p with
      state := { p.state with liquidity := active }
      ticks
      bitmap
      positions := Function.update p.positions positionId (some { position with liquidity }) }
  let tokens ← transferBoth w sender w.self amounts
  pure ({ w with pool, tokens }, amounts)

/-- `burn(sender, position_id, tick_lower, tick_upper, amount)`. -/
def burn (w : World) (sender : Address) (positionId : ℕ) (tickLower tickUpper : ℤ) (amount : ℕ) :
    Res (World × ℕ × ℕ) := do
  requireAuth w sender
  let p := w.pool
  checkRange p tickLower tickUpper amount
  let liquidityDelta ← negI128 (asI128 amount)
  let (ticks, bitmap) ← updateBoundaries p tickLower tickUpper liquidityDelta
  let active ← activeAfterBurn p.state tickLower tickUpper amount
  let position ← getOr (poolError .notInitialized) (p.positions positionId)
  let liquidity ← subU (poolError .insufficientLiquidity) position.liquidity amount
  let amounts := amountsOf p.state tickLower tickUpper amount
  let pool : Pool :=
    { p with
      state := { p.state with liquidity := active }
      ticks
      bitmap
      positions := Function.update p.positions positionId
        (if liquidity = 0 then none else some { position with liquidity }) }
  let tokens ← transferBoth w w.self sender amounts
  pure ({ w with pool, tokens }, amounts)

/-! ### Collecting fees -/

/-- `position.liquidity.checked_mul(delta).unwrap_or(0)`. -/
def feesOwed (liquidity inside insideLast : ℕ) : ℕ :=
  let owed := liquidity * wrapSub 128 inside insideLast
  if owed < 2 ^ 128 then owed else 0

/-- `collect(position_id, tick_lower, tick_upper)`: the fees are reported, and the snapshots moved;
no token is. -/
def collect (w : World) (positionId : ℕ) (tickLower tickUpper : ℤ) : World × ℕ × ℕ :=
  let p := w.pool
  if p.initialized then
    match p.positions positionId with
    | none => (w, 0, 0)
    | some position =>
      let inside0 := inside0 p.ticks tickLower tickUpper p.state
      let inside1 := inside1 p.ticks tickLower tickUpper p.state
      let position' : Position := ⟨position.liquidity, inside0, inside1⟩
      ({ w with pool.positions := Function.update p.positions positionId (some position') },
        feesOwed position.liquidity inside0 position.feeGrowthInside0Last,
        feesOwed position.liquidity inside1 position.feeGrowthInside1Last)
  else (w, 0, 0)

/-! ### Swapping -/

/-- `fee_amount`. -/
def feeAmount (amountIn : ℕ) : ℕ := amountIn / 1000

/-- The price a swap goes to: along the curve, and then held to the caller's limit. -/
def swapPrice (state : PoolState) (zeroForOne : Bool) (amountIn sqrtPriceLimit : ℕ) : Res ℕ := do
  let newPrice ← nextSqrtPriceFromInput state.sqrtPriceX96 state.liquidity
    (satSub amountIn (feeAmount amountIn)) zeroForOne
  pure (if zeroForOne then max newPrice sqrtPriceLimit else min newPrice sqrtPriceLimit)

/-- `amount_out`. -/
def swapOutput (state : PoolState) (zeroForOne : Bool) (newPrice : ℕ) : Res ℕ :=
  if zeroForOne then getAmount1Out state.liquidity newPrice state.sqrtPriceX96
  else getAmount0Out state.liquidity state.sqrtPriceX96 newPrice

/-- `accrue_fees`. -/
def accrueFees (state : PoolState) (fee0 fee1 : ℕ) : PoolState :=
  { state with
    feeGrowthGlobal0 :=
      if 0 < state.liquidity ∧ 0 < fee0 then
        wrapAdd 128 state.feeGrowthGlobal0 (fee0 / state.liquidity)
      else state.feeGrowthGlobal0
    feeGrowthGlobal1 :=
      if 0 < state.liquidity ∧ 0 < fee1 then
        wrapAdd 128 state.feeGrowthGlobal1 (fee1 / state.liquidity)
      else state.feeGrowthGlobal1 }

/-- The call to the wired adapter's `write_observation`. -/
def recordObservation (w : World) (sqrtPrice liquidity : ℕ) : Res (Option OracleAdapter) :=
  match w.oracle with
  | none => pure none
  | some oracle => do
    let oracle' ← oracle.writeObservation w.self w.now sqrtPrice liquidity
    pure (some oracle')

/-- `zero_for_one`: anything but token 0 counts as token 1. -/
def zeroForOne (state : PoolState) (tokenIn : Address) : Bool := decide (tokenIn = state.token0)

/-- `swap(token_in, token_out, amount_in, exact_input, sqrt_price_limit_x96)`. The fee is accrued
as token 0 in both directions. -/
def swap (w : World) (tokenIn _tokenOut : Address) (amountIn : ℕ) (_exactInput : Bool)
    (sqrtPriceLimit : ℕ) : Res (World × ℕ × ℕ) := do
  let state ← loadState w.pool
  let down := zeroForOne state tokenIn
  let newPrice ← swapPrice state down amountIn sqrtPriceLimit
  let amountOut ← swapOutput state down newPrice
  let moved := { state with sqrtPriceX96 := newPrice, tick := sqrtPriceToTick newPrice }
  let oracle ← recordObservation w newPrice state.liquidity
  pure ({ w with pool.state := accrueFees moved (feeAmount amountIn) 0, oracle },
    amountIn, amountOut)

/-! ### The system -/

/-- What can happen to the pool, one invocation at a time. -/
inductive Call where
  | mint (sender : Address) (positionId : ℕ) (tickLower tickUpper : ℤ) (amount : U128)
  | burn (sender : Address) (positionId : ℕ) (tickLower tickUpper : ℤ) (amount : U128)
  | swap (tokenIn tokenOut : Address) (amountIn : U128) (exactInput : Bool) (sqrtPriceLimit : U128)
  | collect (positionId : ℕ) (tickLower tickUpper : ℤ)
  /-- The ledger closes and time passes. -/
  | closeLedger (seconds : ℕ)

/-- The two amounts a successful invocation returned. -/
abbrev Receipt := ℕ × ℕ

/-- One invocation. -/
def exec (w : World) : Call → Res (World × Receipt)
  | .mint sender id tickLower tickUpper amount => mint w sender id tickLower tickUpper amount
  | .burn sender id tickLower tickUpper amount => burn w sender id tickLower tickUpper amount
  | .swap tokenIn tokenOut amountIn exactInput limit =>
    swap w tokenIn tokenOut amountIn exactInput limit
  | .collect id tickLower tickUpper => pure (collect w id tickLower tickUpper)
  | .closeLedger seconds => pure ({ w with now := w.now + seconds }, 0, 0)

end Swyft.PoolContract
