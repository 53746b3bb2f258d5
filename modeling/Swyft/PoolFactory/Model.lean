import Swyft.Host
import Swyft.Lib.Trace
import Mathlib.Data.Finset.Insert

/-!
# The pool factory

`packages/contract/contracts/pool-factory/src/lib.rs`: an owner, two settings, and a map from
normalised pairs and fee tiers to the pools deployed for them.

The parts of the host the factory computes with are a parameter, `Host`: the text of an address,
the serialisation and the hash behind a salt, and the deployer.

## What is deliberately absent

`get_supported_fee_tiers` and `name` return constants, and the getters of the owner and of the two
settings read one field each; nothing else in the contract calls them.
-/

namespace Swyft.PoolFactory

open Checked

/-- `FEE_TIER_005`. -/
def feeTier005 : ℕ := 500

/-- `FEE_TIER_03`. -/
def feeTier03 : ℕ := 3000

/-- `FEE_TIER_1`. -/
def feeTier1 : ℕ := 10000

inductive FactoryError where
  | alreadyInitialized | notInitialized | invalidFeeTier | identicalTokens | duplicatePool
  | poolWasmHashMissing | loadingInProgress
  deriving DecidableEq, Repr

def FactoryError.code : FactoryError → ℕ
  | .alreadyInitialized => 1
  | .notInitialized => 2
  | .invalidFeeTier => 3
  | .identicalTokens => 4
  | .duplicatePool => 5
  | .poolWasmHashMissing => 6
  | .loadingInProgress => 7

/-- `panic_with_error`. -/
def factoryError (e : FactoryError) : Trap := .contractError e.code

/-- `BytesN<32>`. -/
abbrev BytesN32 := BitVec 256

structure PoolKey where
  tokenA : Address
  tokenB : Address
  feeTier : ℕ
  deriving DecidableEq, Repr

/-- The contract's storage, by `DataKey`. A missing flag reads as `false` and a missing map as
the empty one. -/
structure Factory where
  initialized : Bool
  owner : Option Address
  mathLib : Option Address
  poolWasmHash : Option BytesN32
  pools : PoolKey → Option Address
  loading : Bool

/-- The storage before `initialize`. -/
def Factory.deployed : Factory where
  initialized := false
  owner := none
  mathLib := none
  poolWasmHash := none
  pools := fun _ => none
  loading := false

/-- What the factory uses of the host. -/
structure Host where
  /-- `Address::to_string`. -/
  addressString : Address → String
  /-- `to_xdr` of a key. -/
  toXdr : PoolKey → List UInt8
  /-- `env.crypto().sha256`. -/
  sha256 : List UInt8 → BytesN32
  /-- `env.deployer().with_current_contract(salt).deploy(wasm_hash)`, on a ledger where the
  addresses in `used` hold a contract. -/
  deploy : (used : Finset Address) → (salt wasmHash : BytesN32) → Res Address

/-- The factory, and the addresses of its ledger that hold a contract. -/
structure World where
  factory : Factory
  used : Finset Address

/-! ### The helpers -/

/-- `require_auth`, in an invocation that `signer` authorised. -/
def requireAuth (signer a : Address) : Res Unit := require (a = signer) .unauthorized

/-- `ensure_initialized`. -/
def ensureInitialized (f : Factory) : Res Unit :=
  require (f.initialized = true) (factoryError .notInitialized)

/-- `ensure_not_loading`. -/
def ensureNotLoading (f : Factory) : Res Unit :=
  require (f.loading = false) (factoryError .loadingInProgress)

/-- `set_loading`. -/
def setLoading (f : Factory) (value : Bool) : Factory := { f with loading := value }

/-- `require_owner`. -/
def requireOwner (f : Factory) (signer : Address) : Res Unit := do
  let owner ← expect f.owner "called `Option::unwrap()` on a `None` value"
  requireAuth signer owner

/-- `validate_fee_tier`. -/
def validateFeeTier (feeTier : ℕ) : Res Unit :=
  require (feeTier = feeTier005 ∨ feeTier = feeTier03 ∨ feeTier = feeTier1)
    (factoryError .invalidFeeTier)

/-- The two tokens, the one with the smaller text first. -/
def sortTokens (h : Host) (tokenA tokenB : Address) : Address × Address :=
  if h.addressString tokenA < h.addressString tokenB then (tokenA, tokenB) else (tokenB, tokenA)

/-- `normalize_pair`. -/
def normalizePair (h : Host) (tokenA tokenB : Address) : Res (Address × Address) := do
  require (tokenA ≠ tokenB) (factoryError .identicalTokens)
  pure (sortTokens h tokenA tokenB)

/-- The key of a pair and a fee tier, as `create_pool` and `get_pool` build it. -/
def poolKey (h : Host) (tokenA tokenB : Address) (feeTier : ℕ) : PoolKey where
  tokenA := (sortTokens h tokenA tokenB).1
  tokenB := (sortTokens h tokenA tokenB).2
  feeTier

/-! ### Entry points -/

/-- `initialize(owner, math_lib, pool_wasm_hash)`. -/
def initializeFactory (w : World) (signer owner mathLib : Address) (poolWasmHash : BytesN32) :
    Res World := do
  requireAuth signer owner
  require (w.factory.initialized = false) (factoryError .alreadyInitialized)
  pure { w with
    factory := {
      initialized := true
      owner := some owner
      mathLib := some mathLib
      poolWasmHash := some poolWasmHash
      pools := fun _ => none
      loading := false } }

/-- `create_pool(token_a, token_b, fee_tier)`. -/
def createPool (h : Host) (w : World) (tokenA tokenB : Address) (feeTier : ℕ) :
    Res (World × Address) := do
  ensureInitialized w.factory
  ensureNotLoading w.factory
  validateFeeTier feeTier
  let (token0, token1) ← normalizePair h tokenA tokenB
  let key : PoolKey := { tokenA := token0, tokenB := token1, feeTier }
  let pools := w.factory.pools
  require ((pools key).isNone = true) (factoryError .duplicatePool)
  let wasmHash ← getOr (factoryError .poolWasmHashMissing) w.factory.poolWasmHash
  let busy := setLoading w.factory true
  let salt := h.sha256 (h.toXdr key)
  let pool ← h.deploy w.used salt wasmHash
  let stored := { busy with pools := Function.update pools key (some pool) }
  pure ({ factory := setLoading stored false, used := insert pool w.used }, pool)

/-- `get_pool(token_a, token_b, fee_tier)`. -/
def getPool (h : Host) (w : World) (tokenA tokenB : Address) (feeTier : ℕ) :
    Res (Option Address) := do
  ensureInitialized w.factory
  let (token0, token1) ← normalizePair h tokenA tokenB
  pure (w.factory.pools { tokenA := token0, tokenB := token1, feeTier })

/-- `get_is_loading()`. -/
def getIsLoading (w : World) : Res Bool := do
  ensureInitialized w.factory
  pure w.factory.loading

/-- The common shape of the owner's setters: the checks, then one write. -/
def ownerSet (w : World) (signer : Address) (write : Factory → Factory) : Res World := do
  ensureInitialized w.factory
  ensureNotLoading w.factory
  requireOwner w.factory signer
  pure { w with factory := write w.factory }

/-- `set_pool_wasm_hash(wasm_hash)`. -/
def setPoolWasmHash (w : World) (signer : Address) (wasmHash : BytesN32) : Res World :=
  ownerSet w signer fun f => { f with poolWasmHash := some wasmHash }

/-- `set_math_lib(math_lib)`. -/
def setMathLib (w : World) (signer mathLib : Address) : Res World :=
  ownerSet w signer fun f => { f with mathLib := some mathLib }

/-- `set_owner(new_owner)`. -/
def setOwner (w : World) (signer newOwner : Address) : Res World :=
  ownerSet w signer fun f => { f with owner := some newOwner }

/-! ### The system -/

/-- What can happen to the factory, one invocation at a time. -/
inductive Call where
  | initializeFactory (signer owner mathLib : Address) (poolWasmHash : BytesN32)
  | createPool (tokenA tokenB : Address) (feeTier : ℕ)
  | getPool (tokenA tokenB : Address) (feeTier : ℕ)
  | setPoolWasmHash (signer : Address) (wasmHash : BytesN32)
  | setMathLib (signer mathLib : Address)
  | setOwner (signer newOwner : Address)
  /-- Someone else deploys a contract on the ledger. -/
  | elsewhere (address : Address)
  deriving DecidableEq

/-- What a successful invocation returned. -/
inductive Receipt where
  | created (pool : Address)
  | found (pool : Option Address)
  | done
  deriving DecidableEq

/-- One invocation. -/
def exec (h : Host) (w : World) : Call → Res (World × Receipt)
  | .initializeFactory signer owner mathLib poolWasmHash => do
    let w' ← initializeFactory w signer owner mathLib poolWasmHash
    pure (w', .done)
  | .createPool tokenA tokenB feeTier => do
    let (w', pool) ← createPool h w tokenA tokenB feeTier
    pure (w', .created pool)
  | .getPool tokenA tokenB feeTier => do
    let pool ← getPool h w tokenA tokenB feeTier
    pure (w, .found pool)
  | .setPoolWasmHash signer wasmHash => do
    let w' ← setPoolWasmHash w signer wasmHash
    pure (w', .done)
  | .setMathLib signer mathLib => do
    let w' ← setMathLib w signer mathLib
    pure (w', .done)
  | .setOwner signer newOwner => do
    let w' ← setOwner w signer newOwner
    pure (w', .done)
  | .elsewhere address => pure ({ w with used := insert address w.used }, .done)

/-- An event of a run: a call and what it returned. -/
abbrev Event := Call × Receipt

/-- A freshly initialised factory, on any ledger. -/
def Genesis (w : World) : Prop :=
  ∃ used signer owner mathLib poolWasmHash,
    initializeFactory ⟨.deployed, used⟩ signer owner mathLib poolWasmHash = .ok w

/-- A sequence of successful invocations. -/
abbrev Run (h : Host) := Trace (Fires (exec h))

end Swyft.PoolFactory
