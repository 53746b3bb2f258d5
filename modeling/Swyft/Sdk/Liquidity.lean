import Swyft.Sdk.Quote
import Swyft.Host

/-!
# Transactions on positions

The builders of `packages/sdk/src/liquidity.ts`: a record of parameters is checked and becomes the
contract calls of an unsigned transaction. The arguments of a call are values of the host, which
passes them on in the order they are listed.

Reading an address and a contract's identifier, and writing the transaction, are the Stellar
package's. Of the first two it is the parameter `StellarSdk` what they accept. The account a
transaction is built for is random, and it and the fee are left out.

## Main definitions

* `buildBurnTx`, `buildCollectTx`, `buildAddLiquidityTx`, `buildRerangeTx` — the source functions
* `Request`, `build` — the four of them together

## Main results

* `buildBurnTx_eq_ok` and the same for the others — the calls of a transaction that is built
-/

namespace Swyft.Sdk

open Checked

/-! ### Values of the host -/

/-- `xdr.ScVal`, as far as calls of the pools use it. -/
inductive ScVal where
  | address (a : Address)
  | u64 (n : ℕ)
  | u128 (n : U128)
  | i32 (z : ℤ)
  | bool (b : Bool)
  deriving DecidableEq

/-- `contract.call`. -/
structure Operation where
  contract : String
  method : String
  args : List ScVal
  deriving DecidableEq

/-- What `new Contract` and `new Address` accept. -/
structure StellarSdk where
  isContractId : String → Bool
  address : String → Option Address

/-- What a builder throws. -/
inductive BuildThrown where
  | error (message : String)
  | validationError (message : String)
  /-- Thrown by the language. -/
  | language (e : Thrown)
  /-- Thrown by the Stellar package. -/
  | library
  deriving DecidableEq

/-- A builder returns or throws. -/
abbrev Build := Except BuildThrown

/-- Go on with what a function of the language returns. -/
def language {α : Type} : Js α → Build α
  | .ok a => .ok a
  | .error e => .error (.language e)

/-- `BigInt(number)`, which also throws on a number that is not finite. -/
def numberBigInt (x : Number) : Js ℤ := do
  let q ← getOr (.rangeError "cannot be converted to a BigInt because it is not an integer") x
  integerBigInt q

/-- `new Contract(id)`. -/
def newContract (sdk : StellarSdk) (id : String) : Build Unit :=
  require (sdk.isContractId id = true) .library

/-- `nativeToScVal(text, { type: 'address' })`. -/
def scAddress (sdk : StellarSdk) (text : String) : Build ScVal := do
  let a ← getOr .library (sdk.address text)
  pure (.address a)

/-- `nativeToScVal(text, { type: 'u64' })`. -/
def scU64 (text : String) : Build ScVal := do
  let n ← language (readBigInt text)
  require (0 ≤ n ∧ n < 2 ^ 64) .library
  pure (.u64 n.toNat)

/-- `nativeToScVal(n.toString(), { type: 'u128' })`. -/
def scU128 (n : ℤ) : Build ScVal :=
  if h : 0 ≤ n ∧ n < 2 ^ 128 then pure (.u128 ⟨n.toNat, by omega⟩) else .error .library

/-- `nativeToScVal(x, { type: 'i32' })`. -/
def scI32 (x : Number) : Build ScVal := do
  let q ← getOr .library x
  require (q.den = 1 ∧ -2 ^ 31 ≤ q.num ∧ q.num < 2 ^ 31) .library
  pure (.i32 q.num)

/-! ### Parameters -/

inductive PoolType where
  | pool
  | clPool
  deriving DecidableEq

structure BurnTxParams where
  positionId : String
  poolId : String
  liquidity : String
  liquidityBps : Number
  ownerAddress : String
  poolType : Option PoolType

structure CollectTxParams where
  positionId : String
  poolId : String
  ownerAddress : String
  ownerWallet : String
  poolType : Option PoolType

structure AddLiquidityTxParams where
  poolId : String
  ownerAddress : String
  lowerTick : Number
  upperTick : Number
  liquidity : String
  poolType : Option PoolType

structure RerangeTxParams where
  poolId : String
  positionId : String
  ownerAddress : String
  liquidity : String
  newLowerTick : Number
  newUpperTick : Number
  poolType : Option PoolType

/-- `a >= b`, which does not hold of a number that is not finite. -/
def numberGe : Number → Number → Prop
  | some a, some b => b ≤ a
  | _, _ => False

instance decidableNumberGe : ∀ a b, Decidable (numberGe a b)
  | some a, some b => inferInstanceAs (Decidable (b ≤ a))
  | some _, none => instDecidableFalse
  | none, _ => instDecidableFalse

/-- `text.split('.')[0]`. -/
def wholePart (text : String) : String := String.ofList (text.toList.takeWhile (· ≠ '.'))

/-- `isValidStellarAddress`. -/
def isValidStellarAddress (address : String) : Bool :=
  address.length = 56 && address.startsWith "G"

/-! ### Builders -/

/-- The checks of `buildBurnTx`. A number of basis points that is not finite is refused by them or
by `BigInt`. -/
def burnIsInvalid (params : BurnTxParams) : Prop :=
  params.positionId = "" ∨ params.poolId = "" ∨ params.liquidity = "" ∨
    (∃ bps ∈ params.liquidityBps, bps < 0 ∨ 10000 < bps) ∨ params.ownerAddress = ""

instance (params : BurnTxParams) : Decidable (burnIsInvalid params) :=
  inferInstanceAs (Decidable (_ ∨ _))

/-- `buildBurnTx`. -/
def buildBurnTx (sdk : StellarSdk) (params : BurnTxParams) : Build (List Operation) := do
  require (¬ burnIsInvalid params)
    (.error "Invalid burn parameters: all fields are required, liquidityBps must be 0-10000")
  newContract sdk params.poolId
  let totalLiquidity ← language (readBigInt (wholePart params.liquidity))
  let bps ← language (numberBigInt params.liquidityBps)
  let liquidityToRemove := (totalLiquidity * bps).tdiv 10000
  let ownerScVal ← scAddress sdk params.ownerAddress
  let positionIdScVal ← scU64 params.positionId
  let liquidityToRemoveScVal ← scU128 liquidityToRemove
  let burnOp : Operation :=
    match params.poolType.getD .pool with
    | .clPool => ⟨params.poolId, "remove_liquidity",
        [ownerScVal, positionIdScVal, liquidityToRemoveScVal]⟩
    | .pool => ⟨params.poolId, "burn", [positionIdScVal, .i32 0, .i32 0, liquidityToRemoveScVal]⟩
  pure [burnOp]

/-- `params.ownerAddress || params.ownerWallet`. -/
def CollectTxParams.owner (params : CollectTxParams) : String :=
  if params.ownerAddress = "" then params.ownerWallet else params.ownerAddress

/-- `buildCollectTx`. -/
def buildCollectTx (sdk : StellarSdk) (params : CollectTxParams) : Build (List Operation) := do
  require (params.ownerWallet ≠ "") (.validationError "ownerWallet is required")
  require (isValidStellarAddress params.ownerWallet = true)
    (.validationError ("ownerWallet must be a valid Stellar address (starts with G, 56 chars). Got: "
      ++ params.ownerWallet))
  newContract sdk params.poolId
  let ownerScVal ← scAddress sdk params.owner
  let positionIdScVal ← scU64 params.positionId
  let collectOp : Operation :=
    match params.poolType.getD .pool with
    | .clPool => ⟨params.poolId, "collect", [ownerScVal, positionIdScVal]⟩
    | .pool => ⟨params.poolId, "collect", [positionIdScVal, .i32 0, .i32 0]⟩
  pure [collectOp]

/-- `buildAddLiquidityTx`. -/
def buildAddLiquidityTx (sdk : StellarSdk) (params : AddLiquidityTxParams) :
    Build (List Operation) := do
  require (¬ (params.poolId = "" ∨ params.ownerAddress = "" ∨ params.liquidity = ""))
    (.validationError "Invalid add liquidity parameters: all fields are required")
  require (¬ numberGe params.lowerTick params.upperTick)
    (.validationError "lowerTick must be less than upperTick")
  let liquidity ← language (readBigInt params.liquidity)
  require (0 < liquidity) (.validationError "liquidity must be greater than zero")
  newContract sdk params.poolId
  let ownerScVal ← scAddress sdk params.ownerAddress
  let lowerTickScVal ← scI32 params.lowerTick
  let upperTickScVal ← scI32 params.upperTick
  let liquidityScVal ← scU128 liquidity
  let mintOp : Operation :=
    match params.poolType.getD .pool with
    | .clPool => ⟨params.poolId, "add_liquidity",
        [ownerScVal, lowerTickScVal, upperTickScVal, liquidityScVal]⟩
    | .pool => ⟨params.poolId, "mint", [.u64 0, lowerTickScVal, upperTickScVal, liquidityScVal]⟩
  pure [mintOp]

/-- `buildRerangeTx`. -/
def buildRerangeTx (sdk : StellarSdk) (params : RerangeTxParams) : Build (List Operation) := do
  require (¬ (params.poolId = "" ∨ params.positionId = "" ∨ params.ownerAddress = "" ∨
    params.liquidity = ""))
    (.validationError "Invalid rerange parameters: all fields are required")
  require (¬ numberGe params.newLowerTick params.newUpperTick)
    (.validationError "newLowerTick must be less than newUpperTick")
  let liquidity ← language (readBigInt params.liquidity)
  require (0 < liquidity) (.validationError "liquidity must be greater than zero")
  newContract sdk params.poolId
  let ownerScVal ← scAddress sdk params.ownerAddress
  let positionIdScVal ← scU64 params.positionId
  let liquidityScVal ← scU128 liquidity
  let newLowerTickScVal ← scI32 params.newLowerTick
  let newUpperTickScVal ← scI32 params.newUpperTick
  match params.poolType.getD .pool with
  | .clPool =>
    pure [⟨params.poolId, "remove_liquidity", [ownerScVal, positionIdScVal, liquidityScVal]⟩,
      ⟨params.poolId, "add_liquidity",
        [ownerScVal, newLowerTickScVal, newUpperTickScVal, liquidityScVal]⟩]
  | .pool =>
    -- the old range is not among the parameters; a placeholder stands for it
    pure [⟨params.poolId, "burn", [positionIdScVal, .i32 0, .i32 0, liquidityScVal]⟩,
      ⟨params.poolId, "mint",
        [positionIdScVal, newLowerTickScVal, newUpperTickScVal, liquidityScVal]⟩]

/-- What a caller can ask for. -/
inductive Request where
  | burn (params : BurnTxParams)
  | collect (params : CollectTxParams)
  | addLiquidity (params : AddLiquidityTxParams)
  | rerange (params : RerangeTxParams)

def build (sdk : StellarSdk) : Request → Build (List Operation)
  | .burn params => buildBurnTx sdk params
  | .collect params => buildCollectTx sdk params
  | .addLiquidity params => buildAddLiquidityTx sdk params
  | .rerange params => buildRerangeTx sdk params

/-! ### What a caller names -/

/-- What is asked of a contract. -/
inductive Wish where
  | remove (owner : Address) (positionId : ℕ) (liquidity : U128)
  | collect (owner : Address) (positionId : ℕ)
  | add (owner : Address) (tickLower tickUpper : ℤ) (liquidity : U128)

/-- The wishes that a request names: its texts and numbers read as addresses, identifiers, ticks
and amounts. -/
inductive Names (sdk : StellarSdk) : Request → List Wish → Prop
  | burn {params : BurnTxParams} {owner : Address} {positionId : ℕ} {total bps : ℤ}
      {liquidity : U128} (howner : sdk.address params.ownerAddress = some owner)
      (hposition : Js.bigInt params.positionId = some (positionId : ℤ))
      (htotal : Js.bigInt (wholePart params.liquidity) = some total)
      (hbps : params.liquidityBps = some (bps : ℚ))
      (hliquidity : (total * bps).tdiv 10000 = (liquidity : ℕ)) :
      Names sdk (.burn params) [.remove owner positionId liquidity]
  | collect {params : CollectTxParams} {owner : Address} {positionId : ℕ}
      (howner : sdk.address params.owner = some owner)
      (hposition : Js.bigInt params.positionId = some (positionId : ℤ)) :
      Names sdk (.collect params) [.collect owner positionId]
  | addLiquidity {params : AddLiquidityTxParams} {owner : Address} {lower upper : ℤ}
      {liquidity : U128} (howner : sdk.address params.ownerAddress = some owner)
      (hlower : params.lowerTick = some (lower : ℚ)) (hupper : params.upperTick = some (upper : ℚ))
      (hliquidity : Js.bigInt params.liquidity = some ((liquidity : ℕ) : ℤ)) :
      Names sdk (.addLiquidity params) [.add owner lower upper liquidity]
  | rerange {params : RerangeTxParams} {owner : Address} {positionId : ℕ} {lower upper : ℤ}
      {liquidity : U128} (howner : sdk.address params.ownerAddress = some owner)
      (hposition : Js.bigInt params.positionId = some (positionId : ℤ))
      (hlower : params.newLowerTick = some (lower : ℚ))
      (hupper : params.newUpperTick = some (upper : ℚ))
      (hliquidity : Js.bigInt params.liquidity = some ((liquidity : ℕ) : ℤ)) :
      Names sdk (.rerange params)
        [.remove owner positionId liquidity, .add owner lower upper liquidity]

/-- The contract a request is for, and its kind. -/
def Request.poolId : Request → String
  | .burn params => params.poolId
  | .collect params => params.poolId
  | .addLiquidity params => params.poolId
  | .rerange params => params.poolId

def Request.poolType : Request → PoolType
  | .burn params => params.poolType.getD .pool
  | .collect params => params.poolType.getD .pool
  | .addLiquidity params => params.poolType.getD .pool
  | .rerange params => params.poolType.getD .pool

/-- The calls that are listed for the newer pool. -/
def Wish.clPoolCall (poolId : String) : Wish → Operation
  | .remove owner positionId liquidity =>
    ⟨poolId, "remove_liquidity", [.address owner, .u64 positionId, .u128 liquidity]⟩
  | .collect owner positionId => ⟨poolId, "collect", [.address owner, .u64 positionId]⟩
  | .add owner tickLower tickUpper liquidity =>
    ⟨poolId, "add_liquidity",
      [.address owner, .i32 tickLower, .i32 tickUpper, .u128 liquidity]⟩

/-- The calls that are listed for the older pool; `minted` is the identifier listed for an add. -/
def Wish.poolCall (poolId : String) (minted : ℕ) : Wish → Operation
  | .remove _ positionId liquidity =>
    ⟨poolId, "burn", [.u64 positionId, .i32 0, .i32 0, .u128 liquidity]⟩
  | .collect _ positionId => ⟨poolId, "collect", [.u64 positionId, .i32 0, .i32 0]⟩
  | .add _ tickLower tickUpper liquidity =>
    ⟨poolId, "mint", [.u64 minted, .i32 tickLower, .i32 tickUpper, .u128 liquidity]⟩

/-- The calls of a transaction that is built for the wishes. -/
def Wish.calls (poolType : PoolType) (poolId : String) (minted : ℕ) (wishes : List Wish) :
    List Operation :=
  match poolType with
  | .clPool => wishes.map (Wish.clPoolCall poolId)
  | .pool => wishes.map (Wish.poolCall poolId minted)

/-! ### What a builder returns -/

section Values

variable {sdk : StellarSdk} {text : String} {n : ℤ} {x : Number} {v : ScVal}

@[simp] theorem language_eq_ok {α : Type} {y : Js α} {a : α} : language y = .ok a ↔ y = .ok a := by
  cases y <;> simp [language]

@[simp] theorem numberBigInt_eq_ok : numberBigInt x = .ok n ↔ x = some (n : ℚ) := by
  simp only [numberBigInt, bind_eq_ok, getOr_eq_ok]
  constructor
  · rintro ⟨q, rfl, hq⟩
    rw [integerBigInt] at hq
    split at hq
    · rename_i hden
      obtain rfl := pure_eq_ok.mp hq
      rw [Rat.coe_int_num_of_den_eq_one hden]
    · cases hq
  · rintro rfl
    exact ⟨n, rfl, by simp [integerBigInt]⟩

@[simp] theorem scAddress_eq_ok :
    scAddress sdk text = .ok v ↔ ∃ a, sdk.address text = some a ∧ v = .address a := by
  simp only [scAddress, bind_eq_ok, getOr_eq_ok, pure_eq_ok]
  exact exists_congr fun a => and_congr_right fun _ => eq_comm

@[simp] theorem scU64_eq_ok : scU64 text = .ok v ↔
    ∃ n : ℕ, Js.bigInt text = some (n : ℤ) ∧ n < 2 ^ 64 ∧ v = .u64 n := by
  simp only [scU64, bind_eq_ok, language_eq_ok, readBigInt_eq_ok, require_eq_ok, exists_const,
    pure_eq_ok]
  constructor
  · rintro ⟨n, hn, ⟨h0, hlt⟩, rfl⟩
    exact ⟨n.toNat, by rwa [Int.toNat_of_nonneg h0], by omega, rfl⟩
  · rintro ⟨n, hn, hlt, rfl⟩
    exact ⟨n, hn, ⟨by omega, by omega⟩, rfl⟩

@[simp] theorem scU128_eq_ok :
    scU128 n = .ok v ↔ ∃ m : U128, n = ((m : ℕ) : ℤ) ∧ v = .u128 m := by
  unfold scU128
  constructor
  · intro h
    split at h
    · rename_i hn
      exact ⟨_, (Int.toNat_of_nonneg hn.1).symm, (pure_eq_ok.mp h).symm⟩
    · cases h
  · rintro ⟨m, rfl, rfl⟩
    have hm := m.isLt
    rw [dif_pos ⟨by omega, by omega⟩]
    rfl

@[simp] theorem scI32_eq_ok : scI32 x = .ok v ↔
    ∃ z : ℤ, x = some (z : ℚ) ∧ (-2 ^ 31 ≤ z ∧ z < 2 ^ 31) ∧ v = .i32 z := by
  simp only [scI32, bind_eq_ok, getOr_eq_ok, require_eq_ok, exists_const, pure_eq_ok]
  constructor
  · rintro ⟨q, rfl, ⟨hden, hrange⟩, rfl⟩
    exact ⟨q.num, by rw [Rat.coe_int_num_of_den_eq_one hden], hrange, rfl⟩
  · rintro ⟨z, rfl, hrange, rfl⟩
    exact ⟨z, rfl, ⟨rfl, hrange⟩, rfl⟩

end Values

section Builders

variable {sdk : StellarSdk} {ops : List Operation}

theorem buildBurnTx_eq_ok {params : BurnTxParams} (h : buildBurnTx sdk params = .ok ops) :
    ∃ wishes, Names sdk (.burn params) wishes ∧
      ops = Wish.calls (params.poolType.getD .pool) params.poolId 0 wishes := by
  simp only [buildBurnTx, bind_eq_ok, language_eq_ok, readBigInt_eq_ok, numberBigInt_eq_ok,
    scAddress_eq_ok, scU64_eq_ok, scU128_eq_ok, pure_eq_ok] at h
  obtain ⟨-, -, -, -, total, htotal, bps, hbps, _, ⟨owner, howner, rfl⟩, _,
    ⟨positionId, hposition, -, rfl⟩, _, ⟨liquidity, hliquidity, rfl⟩, rfl⟩ := h
  refine ⟨_, .burn howner hposition htotal hbps hliquidity, ?_⟩
  cases params.poolType.getD .pool <;> rfl

theorem buildCollectTx_eq_ok {params : CollectTxParams} (h : buildCollectTx sdk params = .ok ops) :
    ∃ wishes, Names sdk (.collect params) wishes ∧
      ops = Wish.calls (params.poolType.getD .pool) params.poolId 0 wishes := by
  simp only [buildCollectTx, bind_eq_ok, scAddress_eq_ok, scU64_eq_ok, pure_eq_ok] at h
  obtain ⟨-, -, -, -, -, -, _, ⟨owner, howner, rfl⟩, _, ⟨positionId, hposition, -, rfl⟩, rfl⟩ := h
  refine ⟨_, .collect howner hposition, ?_⟩
  cases params.poolType.getD .pool <;> rfl

theorem buildAddLiquidityTx_eq_ok {params : AddLiquidityTxParams}
    (h : buildAddLiquidityTx sdk params = .ok ops) :
    ∃ wishes, Names sdk (.addLiquidity params) wishes ∧
      ops = Wish.calls (params.poolType.getD .pool) params.poolId 0 wishes := by
  simp only [buildAddLiquidityTx, bind_eq_ok, language_eq_ok, readBigInt_eq_ok, scAddress_eq_ok,
    scU128_eq_ok, scI32_eq_ok, pure_eq_ok] at h
  obtain ⟨-, -, -, -, _, hliquidity, -, -, -, -, _, ⟨owner, howner, rfl⟩, _,
    ⟨lower, hlower, -, rfl⟩, _, ⟨upper, hupper, -, rfl⟩, _, ⟨liquidity, rfl, rfl⟩, rfl⟩ := h
  refine ⟨_, .addLiquidity howner hlower hupper hliquidity, ?_⟩
  cases params.poolType.getD .pool <;> rfl

/-- The older pool is asked to mint to the position that is removed from. -/
theorem buildRerangeTx_eq_ok {params : RerangeTxParams} (h : buildRerangeTx sdk params = .ok ops) :
    ∃ wishes minted, Names sdk (.rerange params) wishes ∧
      ops = Wish.calls (params.poolType.getD .pool) params.poolId minted wishes := by
  simp only [buildRerangeTx, bind_eq_ok, language_eq_ok, readBigInt_eq_ok, scAddress_eq_ok,
    scU64_eq_ok, scU128_eq_ok, scI32_eq_ok] at h
  obtain ⟨-, -, -, -, _, hliquidity, -, -, -, -, _, ⟨owner, howner, rfl⟩, _,
    ⟨positionId, hposition, -, rfl⟩, _, ⟨liquidity, rfl, rfl⟩, _, ⟨lower, hlower, -, rfl⟩, _,
    ⟨upper, hupper, -, rfl⟩, h⟩ := h
  refine ⟨_, positionId, .rerange howner hposition hlower hupper hliquidity, ?_⟩
  split at h <;> rename_i htype <;> rw [htype, ← pure_eq_ok.mp h] <;> rfl

/-- Whatever is asked for, what is built are calls for the wishes that the request names. -/
theorem build_eq_ok {request : Request} (h : build sdk request = .ok ops) :
    ∃ wishes minted, Names sdk request wishes ∧
      ops = Wish.calls request.poolType request.poolId minted wishes := by
  cases request with
  | burn params =>
    obtain ⟨wishes, hnames, rfl⟩ := buildBurnTx_eq_ok h
    exact ⟨wishes, 0, hnames, rfl⟩
  | collect params =>
    obtain ⟨wishes, hnames, rfl⟩ := buildCollectTx_eq_ok h
    exact ⟨wishes, 0, hnames, rfl⟩
  | addLiquidity params =>
    obtain ⟨wishes, hnames, rfl⟩ := buildAddLiquidityTx_eq_ok h
    exact ⟨wishes, 0, hnames, rfl⟩
  | rerange params => exact buildRerangeTx_eq_ok h

end Builders

end Swyft.Sdk
