import Swyft.ClPool.PriceMath
import Swyft.Lib.Bits

/-!
# Ticks and the tick bitmap

The tick table, the bitmap over it, and the search for the next initialised tick, as the tick
helpers of `cl-pool` compute them.

A bitmap word holds 128 compressed ticks. `compressed >> 7` and `compressed & 0x7F` are floor
division and remainder by 128, which is what `/` and `%` on `ℤ` are here; `tick / tick_spacing`
truncates in Rust and is `Int.tdiv`.
-/

namespace Swyft.ClPool

open Checked Bits

structure TickInfo where
  liquidityGross : ℕ
  liquidityNet : ℤ
  feeGrowthOutside0 : ℕ
  feeGrowthOutside1 : ℕ
  deriving DecidableEq, Repr

/-- The map under `DataKey::Ticks`. -/
abbrev Ticks := ℤ → Option TickInfo

/-- The map under `DataKey::Bitmap`. -/
abbrev Bitmap := ℤ → Option ℕ

/-- `fee_tier_to_tick_spacing`. -/
def feeTierToTickSpacing (feeTier : ℕ) : ℤ :=
  match feeTier with
  | 500 => 10
  | 3000 => 60
  | 10000 => 200
  | _ => 60

/-- `validate_tick`. -/
def validateTick (tick tickSpacing : ℤ) : Res Unit :=
  require (minTick ≤ tick ∧ tick ≤ maxTick ∧ tick.tmod tickSpacing = 0) (poolError .invalidTick)

/-- `tick_position`. -/
def tickPosition (compressed : ℤ) : ℤ × ℕ := (compressed / 128, (compressed % 128).toNat)

/-- `compressed_tick`. -/
def compressedTick (tick tickSpacing : ℤ) : ℤ :=
  let q := tick.tdiv tickSpacing
  let r := tick.tmod tickSpacing
  if r < 0 then q - 1 else q

/-! ### The tick table -/

/-- `read_tick`. -/
def readTick (ticks : Ticks) (tick : ℤ) : TickInfo := (ticks tick).getD ⟨0, 0, 0, 0⟩

/-- `write_tick`. -/
def writeTick (ticks : Ticks) (tick : ℤ) (info : TickInfo) : Ticks :=
  Function.update ticks tick (some info)

/-- `net_at_tick`: the magnitude of the tick's net liquidity. -/
def netAtTick (ticks : Ticks) (tick : ℤ) : Res ℕ := do
  let net := (readTick ticks tick).liquidityNet
  if net < 0 then do
    let negated ← negI128 net
    pure negated.toNat
  else pure net.toNat

/-- The new `liquidity_gross` of `update_tick`. -/
def grossAfter (gross : ℕ) (liquidityDelta : ℤ) : Res ℕ :=
  if 0 ≤ liquidityDelta then fitU 128 (poolError .overflow) (gross + liquidityDelta.toNat)
  else do
    let removed ← negI128 liquidityDelta
    subU (poolError .insufficientLiquidity) gross removed.toNat

/-- `update_tick`: the new table, and whether the tick's initialised status flipped. -/
def updateTick (ticks : Ticks) (tick liquidityDelta : ℤ) (upper : Bool) : Res (Ticks × Bool) := do
  let info := readTick ticks tick
  let gross ← grossAfter info.liquidityGross liquidityDelta
  let net ← fitI 127 (poolError .overflow)
    (if upper then info.liquidityNet - liquidityDelta else info.liquidityNet + liquidityDelta)
  let ticks' :=
    if gross = 0 then Function.update ticks tick none
    else writeTick ticks tick { info with liquidityGross := gross, liquidityNet := net }
  pure (ticks', decide (gross = 0) != decide (info.liquidityGross = 0))

/-- `cross_tick`. -/
def crossTick (ticks : Ticks) (tick : ℤ) (feeGrowthGlobal0 feeGrowthGlobal1 : ℕ) : Ticks :=
  let info := readTick ticks tick
  writeTick ticks tick
    { info with
      feeGrowthOutside0 := wrapSub 128 feeGrowthGlobal0 info.feeGrowthOutside0
      feeGrowthOutside1 := wrapSub 128 feeGrowthGlobal1 info.feeGrowthOutside1 }

/-! ### The bitmap -/

/-- `bitmap.get(word_pos).unwrap_or(0)`. -/
def bitmapWord (bitmap : Bitmap) (wordPos : ℤ) : ℕ := (bitmap wordPos).getD 0

/-- `flip_bitmap`. -/
def flipBitmap (bitmap : Bitmap) (tick tickSpacing : ℤ) (flipped : Bool) : Bitmap :=
  if flipped then
    let position := tickPosition (compressedTick tick tickSpacing)
    Function.update bitmap position.1
      (some (bitmapWord bitmap position.1 ^^^ 2 ^ position.2))
  else bitmap

/-- The highest set bit of a word, as the search reads it. -/
def mostSignificant (word : ℕ) : ℤ := 127 - leadingZeros 128 word

/-- The tick of bit `bit` in word `wordPos`, in `i32`. -/
def tickOfBit (wordPos bit tickSpacing : ℤ) : Res ℤ := do
  let base ← fitI32 (wordPos * 128)
  let compressed ← fitI32 (base + bit)
  fitI32 (compressed * tickSpacing)

/-- The downward loop of `next_initialized_tick`, from word `w`, with `rounds` words left before
`i32::MIN` has been looked at. -/
def scanDown (bitmap : Bitmap) (tickSpacing : ℤ) : (rounds : ℕ) → (w : ℤ) → Res (ℤ × Bool)
  | 0, _ => pure (minTick, false)
  | rounds + 1, w =>
    let word := bitmapWord bitmap w
    if word ≠ 0 then do
      let tick ← tickOfBit w (mostSignificant word) tickSpacing
      pure (tick, true)
    else scanDown bitmap tickSpacing rounds (w - 1)

/-- The upward loop of `next_initialized_tick`, with `rounds` words left up to `i32::MAX`. -/
def scanUp (bitmap : Bitmap) (tickSpacing : ℤ) : (rounds : ℕ) → (w : ℤ) → Res (ℤ × Bool)
  | 0, _ => pure (maxTick, false)
  | rounds + 1, w =>
    let word := bitmapWord bitmap w
    if word ≠ 0 then do
      let tick ← tickOfBit w (trailingZeros 128 word) tickSpacing
      pure (tick, true)
    else scanUp bitmap tickSpacing rounds (w + 1)

/-- `next_initialized_tick`. -/
def nextInitializedTick (bitmap : Bitmap) (tick tickSpacing : ℤ) (lte : Bool) :
    Res (ℤ × Bool) := do
  let compressed := compressedTick tick tickSpacing
  if lte then
    let position := tickPosition compressed
    let mask := (2 ^ position.2 - 1 + 2 ^ position.2) % 2 ^ 128
    let masked := bitmapWord bitmap position.1 &&& mask
    if masked ≠ 0 then do
      let found ← tickOfBit position.1 (mostSignificant masked) tickSpacing
      pure (found, true)
    else do
      let w ← fitI32 (position.1 - 1)
      scanDown bitmap tickSpacing ((w + 2 ^ 31).toNat + 1) w
  else do
    let above ← fitI32 (compressed + 1)
    let position := tickPosition above
    let mask := (2 ^ 128 - 1) ^^^ (2 ^ position.2 - 1)
    let masked := bitmapWord bitmap position.1 &&& mask
    if masked ≠ 0 then do
      let found ← tickOfBit position.1 (trailingZeros 128 masked) tickSpacing
      pure (found, true)
    else do
      let w ← fitI32 (position.1 + 1)
      scanUp bitmap tickSpacing ((2 ^ 31 - 1 - w).toNat + 1) w

end Swyft.ClPool
