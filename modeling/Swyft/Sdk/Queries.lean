import Swyft.Sdk.Quote
import Swyft.PoolContract.System
import Swyft.PositionNft

/-!
# Reading the contracts

`getPool` and `getPosition` of `packages/sdk/src/queries.ts`: what a contract returns is a record,
which arrives as an object with the names of the record's fields as keys. A field that is not
under any of the keys the reader tries is replaced by a default, and nothing is reported.

The readers try keys that the contracts do not use. Of a pool only the liquidity and the fee tier
arrive, of a position the owner, the pool and the liquidity.

The call of the contract is left out, as is what `String` and `Number` make of values that are
neither texts nor integers, or no numbers. That is the parameter `Conversions`.

## Main definitions

* `getPool`, `getPosition` — the source functions, from the value a contract returned
* `poolStateToNative`, `metadataToNative` — the records as they arrive

## Main results

* `getPool_eq`, `getPosition_eq` — what arrives of a record
* `readers_never_decode` — no state of a pool and no position that is stored arrives whole
-/

namespace Swyft.Sdk.Queries

open Checked

/-! ### Values -/

/-- A value that `scValToNative` returns. -/
inductive Native where
  | null
  | boolean (b : Bool)
  | number (x : Number)
  | bigint (n : ℤ)
  | string (s : String)
  | array (values : List Native)
  | object (fields : List (String × Native))

/-- What `String` and `Number` make of other values. -/
structure Conversions where
  text : Native → String
  number : Native → Number

/-- `String(value)`. -/
def Conversions.toText (conversions : Conversions) : Native → String
  | .string s => s
  | .bigint n => toString n
  | value => conversions.text value

/-- `Number(value)`. -/
def Conversions.toNumber (conversions : Conversions) : Native → Number
  | .number x => x
  | value => conversions.number value

abbrev Fields := List (String × Native)

/-- `new SwyftRpcError`. -/
structure SwyftRpcError where
  message : String
  deriving DecidableEq

/-- `assertRawObject`. -/
def assertRawObject (raw : Native) (context : String) : Except SwyftRpcError Fields :=
  match raw with
  | .object fields => pure fields
  | _ => .error ⟨"Unexpected response shape from " ++ context⟩

/-- The value under the first of the keys that has one. -/
def firstValue (obj : Fields) : List String → Option Native
  | [] => none
  | key :: keys =>
    match obj.lookup key with
    | some .null | none => firstValue obj keys
    | some value => some value

/-- `extractString`. -/
def extractString (conversions : Conversions) (obj : Fields) (keys : List String)
    (fallback : String) : String :=
  ((firstValue obj keys).map conversions.toText).getD fallback

/-- `extractNumber`. -/
def extractNumber (conversions : Conversions) (obj : Fields) (keys : List String)
    (fallback : Number) : Number :=
  ((firstValue obj keys).map conversions.toNumber).getD fallback

/-! ### Readers -/

/-- What `getPool` returns. -/
structure PoolState where
  poolAddress : String
  sqrtPrice : String
  currentTick : Number
  liquidity : String
  feeTier : Number
  token0 : String
  token1 : String
  deriving DecidableEq

structure PositionState where
  positionNftId : String
  owner : String
  pool : String
  lowerTick : Number
  upperTick : Number
  liquidity : String
  deriving DecidableEq

/-- `getPool`, from what `get_state` returned. -/
def getPool (conversions : Conversions) (poolAddress : String) (retval : Native) :
    Except SwyftRpcError PoolState := do
  let raw ← assertRawObject retval poolAddress
  pure {
    poolAddress
    sqrtPrice := extractString conversions raw ["sqrt_price", "sqrtPrice"] "0"
    currentTick := extractNumber conversions raw ["current_tick", "currentTick"] (some 0)
    liquidity := extractString conversions raw ["liquidity"] "0"
    feeTier := extractNumber conversions raw ["fee_tier", "feeTier"] (some 0)
    token0 := extractString conversions raw ["token0"] ""
    token1 := extractString conversions raw ["token1"] "" }

/-- The fields of a position, as `getPosition` reads them. -/
def readPosition (conversions : Conversions) (positionNftId : String) (position : Fields) :
    PositionState where
  positionNftId
  owner := extractString conversions position ["owner"] ""
  pool := extractString conversions position ["pool"] ""
  lowerTick := extractNumber conversions position ["lower_tick", "lowerTick"] (some 0)
  upperTick := extractNumber conversions position ["upper_tick", "upperTick"] (some 0)
  liquidity := extractString conversions position ["liquidity"] "0"

/-- `getPosition`, from what `get_position` returned; a void value is `null`. -/
def getPosition (conversions : Conversions) (positionNftId : String) (retval : Native) :
    Option PositionState :=
  match retval with
  | .object [] => none
  | .object raw =>
    match raw.lookup "value" with
    | none => some (readPosition conversions positionNftId raw)
    | some (.object position) => some (readPosition conversions positionNftId position)
    | some _ => none
  | _ => none

/-! ### Records -/

/-- The state of a pool as it arrives. `text` writes an address. -/
def poolStateToNative (text : Address → String) (s : PoolContract.PoolState) : Native :=
  .object [("fee_growth_global_0_x128", .bigint s.feeGrowthGlobal0),
    ("fee_growth_global_1_x128", .bigint s.feeGrowthGlobal1),
    ("fee_tier", .number (some s.feeTier)), ("liquidity", .bigint s.liquidity),
    ("sqrt_price_x96", .bigint s.sqrtPriceX96), ("tick", .number (some s.tick)),
    ("tick_spacing", .number (some s.tickSpacing)), ("token_0", .string (text s.token0)),
    ("token_1", .string (text s.token1))]

/-- The metadata of a position as they arrive. -/
def metadataToNative (text : Address → String) (m : PositionMetadata) : Native :=
  .object [("created_at", .bigint m.createdAt), ("liquidity", .bigint m.liquidity),
    ("owner", .string (text m.owner)), ("pool", .string (text m.pool)),
    ("tick_lower", .number (some m.tickLower)), ("tick_upper", .number (some m.tickUpper))]

/-- What a reader of the pool is to return. -/
def poolStateOf (text : Address → String) (poolAddress : String) (s : PoolContract.PoolState) :
    PoolState where
  poolAddress
  sqrtPrice := toString (s.sqrtPriceX96 : ℤ)
  currentTick := some s.tick
  liquidity := toString (s.liquidity : ℤ)
  feeTier := some s.feeTier
  token0 := text s.token0
  token1 := text s.token1

/-- What a reader of the position is to return. -/
def positionStateOf (text : Address → String) (positionNftId : String) (m : PositionMetadata) :
    PositionState where
  positionNftId
  owner := text m.owner
  pool := text m.pool
  lowerTick := some m.tickLower
  upperTick := some m.tickUpper
  liquidity := toString (m.liquidity : ℤ)

variable {conversions : Conversions} {text : Address → String}

/-- Of the state of a pool, its liquidity and its fee tier arrive. -/
theorem getPool_eq (poolAddress : String) (s : PoolContract.PoolState) :
    getPool conversions poolAddress (poolStateToNative text s) =
      .ok { poolStateOf text poolAddress s with
        sqrtPrice := "0"
        currentTick := some 0
        token0 := ""
        token1 := "" } := rfl

/-- Of a position, its range does not arrive. -/
theorem getPosition_eq (positionNftId : String) (m : PositionMetadata) :
    getPosition conversions positionNftId (metadataToNative text m) =
      some { positionStateOf text positionNftId m with
        lowerTick := some 0
        upperTick := some 0 } := rfl

/-- The state of a pool arrives whole only if its price and its tick are zero and addresses are
written as nothing. -/
theorem getPool_decodes_iff (poolAddress : String) (s : PoolContract.PoolState) :
    getPool conversions poolAddress (poolStateToNative text s) =
        .ok (poolStateOf text poolAddress s) ↔
      toString (s.sqrtPriceX96 : ℤ) = "0" ∧ s.tick = 0 ∧ text s.token0 = "" ∧
        text s.token1 = "" := by
  rw [getPool_eq]
  simp only [poolStateOf, Except.ok.injEq, PoolState.mk.injEq, Option.some.injEq, true_and]
  constructor
  · rintro ⟨hprice, htick, h0, h1⟩
    exact ⟨hprice.symm, by exact_mod_cast htick.symm, h0.symm, h1.symm⟩
  · rintro ⟨hprice, htick, h0, h1⟩
    exact ⟨hprice.symm, by rw [htick]; rfl, h0.symm, h1.symm⟩

/-- A position arrives whole only if its range is from zero to zero. -/
theorem getPosition_decodes_iff (positionNftId : String) (m : PositionMetadata) :
    getPosition conversions positionNftId (metadataToNative text m) =
        some (positionStateOf text positionNftId m) ↔ m.tickLower = 0 ∧ m.tickUpper = 0 := by
  rw [getPosition_eq]
  simp only [positionStateOf, Option.some.injEq, PositionState.mk.injEq, true_and, and_true]
  constructor
  · rintro ⟨hlower, hupper⟩
    exact ⟨by exact_mod_cast hlower.symm, by exact_mod_cast hupper.symm⟩
  · rintro ⟨hlower, hupper⟩
    exact ⟨by rw [hlower]; rfl, by rw [hupper]; rfl⟩

/-- **The readers decode nothing whole.** Addresses being written as texts of 56 characters, no
state of a pool arrives as it is, nor does any position that the NFT contract stores. -/
theorem readers_never_decode (conversions : Conversions) (text : Address → String)
    (htext : ∀ a, (text a).length = 56) :
    (∀ poolAddress s, getPool conversions poolAddress (poolStateToNative text s) ≠
      .ok (poolStateOf text poolAddress s)) ∧
    ∀ nft : PositionNft, nft.Reachable → ∀ id m, nft.getPosition id = some m →
      ∀ positionNftId, getPosition conversions positionNftId (metadataToNative text m) ≠
        some (positionStateOf text positionNftId m) := by
  constructor
  · intro poolAddress s h
    obtain ⟨-, -, htoken, -⟩ := (getPool_decodes_iff poolAddress s).mp h
    have hlength := htext s.token0
    rw [htoken] at hlength
    cases hlength
  · intro nft hnft id m hm positionNftId h
    obtain ⟨hlower, hupper⟩ := (getPosition_decodes_iff positionNftId m).mp h
    have hordered := hnft.ordered id m hm
    rw [hlower, hupper] at hordered
    exact absurd hordered (lt_irrefl 0)

/-- Addresses as texts, for numbers of at most 55 digits. -/
def sampleText (a : Address) : String :=
  String.ofList ('C' :: ((Nat.toDigits 10 a.id).reverse ++ List.replicate 55 'A').take 55)

theorem sampleText_length (a : Address) : (sampleText a).length = 56 := by
  rw [sampleText, String.length_ofList]
  simp

def sampleConversions : Conversions := ⟨fun _ => "", fun _ => none⟩

/-- A pool initialised at the price four. -/
def sampleWorld : PoolContract.World where
  self := ⟨5⟩
  pool :=
    { PoolContract.Pool.deployed with
      initialized := true
      state := ⟨2 ^ 97, 13863, 0, 0, 0, 3000, 60, ⟨1⟩, ⟨2⟩⟩ }
  tokens := fun _ _ => 0
  oracle := none
  now := 0

theorem sampleWorld_reachable : PoolContract.Reachable sampleWorld := by
  have htick : PoolContract.sqrtPriceToTick (2 ^ 97) = 13863 := by decide
  refine ⟨sampleWorld, [], ?_, .nil _⟩
  refine ⟨⟨5⟩, fun _ _ => 0, none, 0, ⟨1⟩, ⟨2⟩, ⟨2 ^ 97, by decide⟩, 3000, ?_⟩
  simp only [PoolContract.genesis, PoolContract.initializePool, htick]
  rfl

/-- An NFT contract with one position. -/
def sampleNft : PositionNft := ⟨some ⟨3⟩, IdStore.empty.push ⟨⟨4⟩, ⟨3⟩, -60, 60, 5000, 0⟩⟩

theorem sampleNft_reachable : sampleNft.Reachable := by
  have hinitial : PositionNft.deployed.initializeNft ⟨3⟩ = .ok ⟨some ⟨3⟩, IdStore.empty⟩ := rfl
  have hminted : (⟨some ⟨3⟩, IdStore.empty⟩ : PositionNft).mint ⟨3⟩ 0 ⟨4⟩ ⟨3⟩ (-60) 60 5000 =
      .ok (sampleNft, 0) := rfl
  exact .mint (.initialised hinitial) hminted

theorem readers_never_decode_sample :
    getPool sampleConversions "P" (poolStateToNative sampleText sampleWorld.pool.state) ≠
        .ok (poolStateOf sampleText "P" sampleWorld.pool.state) ∧
      getPosition sampleConversions "N"
          (metadataToNative sampleText ⟨⟨4⟩, ⟨3⟩, -60, 60, 5000, 0⟩) ≠
        some (positionStateOf sampleText "N" ⟨⟨4⟩, ⟨3⟩, -60, 60, 5000, 0⟩) := by
  have h := readers_never_decode sampleConversions sampleText sampleText_length
  exact ⟨h.1 "P" sampleWorld.pool.state, h.2 sampleNft sampleNft_reachable 0 _ rfl "N"⟩

/-- Of a pool at the price four neither the price nor the tick nor a token arrives, and of a
position from -60 to 60 not its range. -/
theorem defaults_for_fields :
    (∃ w, PoolContract.Reachable w ∧ w.pool.state.sqrtPriceX96 = 2 ^ 97 ∧
      w.pool.state.tick = 13863 ∧
      getPool sampleConversions "P" (poolStateToNative sampleText w.pool.state) =
        .ok ⟨"P", "0", some 0, "0", some 3000, "", ""⟩ ∧
      getPool sampleConversions "P" (poolStateToNative sampleText w.pool.state) ≠
        .ok (poolStateOf sampleText "P" w.pool.state)) ∧
    ∃ nft : PositionNft, nft.Reachable ∧ ∃ m, nft.getPosition 0 = some m ∧
      m.tickLower = -60 ∧ m.tickUpper = 60 ∧
      getPosition sampleConversions "N" (metadataToNative sampleText m) =
        some { positionStateOf sampleText "N" m with lowerTick := some 0, upperTick := some 0 } ∧
      getPosition sampleConversions "N" (metadataToNative sampleText m) ≠
        some (positionStateOf sampleText "N" m) := by
  refine ⟨⟨sampleWorld, sampleWorld_reachable, rfl, rfl, rfl, ?_⟩,
    sampleNft, sampleNft_reachable, _, rfl, rfl, rfl, rfl, ?_⟩
  · intro h
    obtain ⟨-, htick, -⟩ := (getPool_decodes_iff _ _).mp h
    exact absurd htick (by decide)
  · intro h
    obtain ⟨hlower, -⟩ := (getPosition_decodes_iff _ _).mp h
    exact absurd hlower (by decide)

end Swyft.Sdk.Queries
