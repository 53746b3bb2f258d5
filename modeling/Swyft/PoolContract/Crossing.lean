import Swyft.PoolContract.Books

/-!
# Crossing a tick

`cross_tick` of the pool contract, an entry point open to anyone. It reflects the tick's two outside
growths in the global growth, which is undone by crossing again, and it moves the active liquidity
by `liquidity_net`, which is not: both branches of its test of the direction add.

## Main results

* `crossLiquidity_eq` — the direction makes no difference
* `wrapSub_wrapSub` — reflecting twice restores
* `crossing_reverses_iff` — when crossing there and back restores the state
-/

namespace Swyft.PoolContract

open Checked

/-- The new active liquidity of `cross_tick`. -/
def crossLiquidity (liquidity : ℕ) (liquidityNet : ℤ) (zeroForOne : Bool) : Res ℕ :=
  if zeroForOne then
    if liquidityNet < 0 then do
      let removed ← negI128 liquidityNet
      pure (satSub liquidity removed.toNat)
    else pure (satAdd 128 liquidity liquidityNet.toNat)
  else
    if 0 ≤ liquidityNet then pure (satAdd 128 liquidity liquidityNet.toNat)
    else do
      let removed ← negI128 liquidityNet
      pure (satSub liquidity removed.toNat)

/-- The tick's entry with its outside growths reflected in the global growth. -/
def TickInfo.reflected (info : TickInfo) (state : PoolState) : TickInfo :=
  { info with
    feeGrowthOutside0 := wrapSub 128 state.feeGrowthGlobal0 info.feeGrowthOutside0
    feeGrowthOutside1 := wrapSub 128 state.feeGrowthGlobal1 info.feeGrowthOutside1 }

/-- The pool with an active liquidity and an entry for one tick. -/
def Pool.crossed (p : Pool) (tick : ℤ) (liquidity : ℕ) (info : TickInfo) : Pool :=
  { p with
    state := { p.state with liquidity }
    ticks := Function.update p.ticks tick (some info) }

/-- `cross_tick(tick, zero_for_one)`. -/
def crossTick (p : Pool) (tick : ℤ) (zeroForOne : Bool) : Res Pool := do
  let state ← loadState p
  match p.ticks tick with
  | none => pure p
  | some info => do
    let liquidity ← crossLiquidity state.liquidity info.liquidityNet zeroForOne
    pure (p.crossed tick liquidity (info.reflected state))

/-- Cross a tick in one direction, and then in the other. -/
def crossAndBack (p : Pool) (tick : ℤ) (zeroForOne : Bool) : Res Pool := do
  let crossed ← crossTick p tick zeroForOne
  crossTick crossed tick (!zeroForOne)

/-! ### The liquidity -/

/-- The direction makes no difference. -/
theorem crossLiquidity_eq (liquidity : ℕ) (net : ℤ) (zeroForOne : Bool) :
    crossLiquidity liquidity net zeroForOne = crossLiquidity liquidity net true := by
  cases zeroForOne with
  | true => rfl
  | false =>
    rcases lt_or_ge net 0 with hneg | hpos
    · rw [crossLiquidity, crossLiquidity, if_neg Bool.false_ne_true, if_pos rfl, if_pos hneg,
        if_neg (by omega)]
    · rw [crossLiquidity, crossLiquidity, if_neg Bool.false_ne_true, if_pos rfl, if_pos hpos,
        if_neg (by omega)]

/-- What a crossing makes of the active liquidity. -/
theorem crossLiquidity_eq_ok {liquidity l : ℕ} {net : ℤ} {zeroForOne : Bool} :
    crossLiquidity liquidity net zeroForOne = .ok l ↔
      if net < 0 then -2 ^ 127 < net ∧ l = liquidity - (-net).toNat
      else l = min (liquidity + net.toNat) (2 ^ 128 - 1) := by
  rw [crossLiquidity_eq, crossLiquidity, if_pos rfl]
  by_cases hneg : net < 0
  · simp only [if_pos hneg, bind_eq_ok, negI128_eq_ok, pure_eq_ok, satSub]
    constructor
    · rintro ⟨_, ⟨hfit, rfl⟩, rfl⟩
      exact ⟨by omega, rfl⟩
    · rintro ⟨hfit, rfl⟩
      exact ⟨_, ⟨by omega, rfl⟩, rfl⟩
  · rw [if_neg hneg, if_neg hneg, pure_eq_ok, satAdd, eq_comm]

/-! ### The outside growths -/

/-- Reflecting twice restores. -/
theorem wrapSub_wrapSub {a b : ℕ} (ha : a < 2 ^ 128) (hb : b < 2 ^ 128) :
    wrapSub 128 a (wrapSub 128 a b) = b := by
  rcases le_or_gt b a with hle | hlt
  · rw [wrapSub_of_le hle ha, wrapSub_of_le (Nat.sub_le a b) ha, Nat.sub_sub_self hle]
  · rw [wrapSub_of_lt hlt hb]
    rcases Nat.lt_or_ge a (2 ^ 128 - (b - a)) with h | h
    · rw [wrapSub_of_lt h (by omega)]
      omega
    · omega

/-! ### There and back -/

/-- The fields a crossing works on are words of the contract's types. -/
structure CrossingWords (state : PoolState) (info : TickInfo) : Prop where
  liquidity : state.liquidity < 2 ^ 128
  global0 : state.feeGrowthGlobal0 < 2 ^ 128
  global1 : state.feeGrowthGlobal1 < 2 ^ 128
  outside0 : info.feeGrowthOutside0 < 2 ^ 128
  outside1 : info.feeGrowthOutside1 < 2 ^ 128

instance (state : PoolState) (info : TickInfo) : Decidable (CrossingWords state info) :=
  decidable_of_iff (state.liquidity < 2 ^ 128 ∧ state.feeGrowthGlobal0 < 2 ^ 128 ∧
      state.feeGrowthGlobal1 < 2 ^ 128 ∧ info.feeGrowthOutside0 < 2 ^ 128 ∧
      info.feeGrowthOutside1 < 2 ^ 128)
    ⟨fun ⟨l, g0, g1, o0, o1⟩ => ⟨l, g0, g1, o0, o1⟩,
      fun h => ⟨h.liquidity, h.global0, h.global1, h.outside0, h.outside1⟩⟩

/-- The outside growths of the tick are what they were. -/
def OutsideRestored (p p' : Pool) (tick : ℤ) : Prop :=
  (readTick p'.ticks tick).feeGrowthOutside0 = (readTick p.ticks tick).feeGrowthOutside0 ∧
    (readTick p'.ticks tick).feeGrowthOutside1 = (readTick p.ticks tick).feeGrowthOutside1

variable {p : Pool} {tick : ℤ} {info : TickInfo} {zeroForOne : Bool}

theorem Pool.crossed_crossed (l l' : ℕ) (i i' : TickInfo) :
    (p.crossed tick l i).crossed tick l' i' = p.crossed tick l' i' := by
  simp only [Pool.crossed, Function.update_idem]

theorem Pool.crossed_liquidity (l : ℕ) (i : TickInfo) :
    (p.crossed tick l i).state.liquidity = l := rfl

theorem TickInfo.reflected_net (state : PoolState) :
    (info.reflected state).liquidityNet = info.liquidityNet := by
  rw [reflected]

/-- A reflection does not look at the liquidity. -/
theorem TickInfo.reflected_crossed (info' : TickInfo) (liquidity : ℕ) :
    info'.reflected (p.crossed tick liquidity info).state = info'.reflected p.state := rfl

theorem TickInfo.reflected_reflected (h : CrossingWords p.state info) :
    (info.reflected p.state).reflected p.state = info := by
  have h0 := wrapSub_wrapSub h.global0 h.outside0
  have h1 := wrapSub_wrapSub h.global1 h.outside1
  obtain ⟨gross, net, outside0, outside1, initialized⟩ := info
  rw [reflected, reflected, TickInfo.mk.injEq]
  exact ⟨rfl, rfl, h0, h1, rfl⟩

/-- What a crossing of a tick in the table does. -/
theorem crossTick_eq_ok {p' : Pool} (hinfo : p.ticks tick = some info) :
    crossTick p tick zeroForOne = .ok p' ↔
      p.initialized = true ∧ ∃ liquidity,
        crossLiquidity p.state.liquidity info.liquidityNet zeroForOne = .ok liquidity ∧
        p' = p.crossed tick liquidity (info.reflected p.state) := by
  simp only [crossTick, loadState, bind_eq_ok, require_eq_ok, exists_const, pure_eq_ok, hinfo]
  constructor
  · rintro ⟨_, ⟨hinit, rfl⟩, liquidity, hl, rfl⟩
    exact ⟨hinit, liquidity, hl, rfl⟩
  · rintro ⟨hinit, liquidity, hl, rfl⟩
    exact ⟨_, ⟨hinit, rfl⟩, liquidity, hl, rfl⟩

/-- There and back, the liquidity is moved twice and the outside growths are reflected twice. -/
theorem crossAndBack_eq_ok {p' : Pool} (hinfo : p.ticks tick = some info)
    (hwords : CrossingWords p.state info) :
    crossAndBack p tick zeroForOne = .ok p' ↔
      p.initialized = true ∧ ∃ there back,
        crossLiquidity p.state.liquidity info.liquidityNet zeroForOne = .ok there ∧
        crossLiquidity there info.liquidityNet (!zeroForOne) = .ok back ∧
        p' = p.crossed tick back info := by
  have hback : ∀ there back,
      (p.crossed tick there (info.reflected p.state)).crossed tick back
        ((info.reflected p.state).reflected
          (p.crossed tick there (info.reflected p.state)).state) = p.crossed tick back info := by
    intro there back
    rw [TickInfo.reflected_crossed, TickInfo.reflected_reflected hwords, Pool.crossed_crossed]
  have hentry : ∀ there, (p.crossed tick there (info.reflected p.state)).ticks tick
      = some (info.reflected p.state) := fun _ => Function.update_self _ _ _
  rw [crossAndBack, bind_eq_ok]
  constructor
  · rintro ⟨crossed, hthere, h⟩
    obtain ⟨hinit, there, hl, rfl⟩ := (crossTick_eq_ok hinfo).mp hthere
    obtain ⟨-, back, hl', hp'⟩ := (crossTick_eq_ok (hentry there)).mp h
    rw [Pool.crossed_liquidity, TickInfo.reflected_net] at hl'
    rw [hback] at hp'
    exact ⟨hinit, there, back, hl, hl', hp'⟩
  · rintro ⟨hinit, there, back, hl, hl', rfl⟩
    refine ⟨_, (crossTick_eq_ok hinfo).mpr ⟨hinit, there, hl, rfl⟩, ?_⟩
    rw [crossTick_eq_ok (hentry there), Pool.crossed_liquidity, TickInfo.reflected_net]
    exact ⟨hinit, back, hl', (hback there back).symm⟩

/-- **When crossing there and back restores the state.** The outside growths always come back. The
liquidity, unless the first crossing saturates it, comes back only where the tick has no net
liquidity to move. -/
theorem crossing_reverses_iff (hinit : p.initialized = true) (hinfo : p.ticks tick = some info)
    (hwords : CrossingWords p.state info) (hlow : 0 ≤ p.state.liquidity + info.liquidityNet)
    (hhigh : p.state.liquidity + info.liquidityNet < 2 ^ 128) :
    Ensures (crossAndBack p tick zeroForOne) (fun p' => OutsideRestored p p' tick) ∧
      (Yields (crossAndBack p tick zeroForOne) (fun p' =>
          p'.state.liquidity = p.state.liquidity ∧ OutsideRestored p p' tick) ↔
        info.liquidityNet = 0) := by
  have houtside : ∀ back, OutsideRestored p (p.crossed tick back info) tick := by
    intro back
    simp [OutsideRestored, Pool.crossed, readTick, hinfo]
  constructor
  · cases hrun : crossAndBack p tick zeroForOne with
    | error => trivial
    | ok p' =>
      obtain ⟨-, there, back, -, -, rfl⟩ := (crossAndBack_eq_ok hinfo hwords).mp hrun
      exact houtside back
  · have hword := hwords.liquidity
    rw [yields_iff]
    constructor
    · rintro ⟨p', hrun, hsame, -⟩
      obtain ⟨-, there, back, hthere, hback, rfl⟩ := (crossAndBack_eq_ok hinfo hwords).mp hrun
      have hsame : back = p.state.liquidity := hsame
      rw [crossLiquidity_eq_ok] at hthere hback
      split at hthere
      case isTrue hneg =>
        rw [if_pos hneg] at hback
        omega
      case isFalse hpos =>
        rw [if_neg hpos] at hback
        omega
    · intro hzero
      have hstay : ∀ direction, crossLiquidity p.state.liquidity info.liquidityNet direction
          = .ok p.state.liquidity := by
        intro direction
        rw [crossLiquidity_eq_ok, hzero, if_neg (lt_irrefl 0), Int.toNat_zero, Nat.add_zero]
        omega
      exact ⟨_, (crossAndBack_eq_ok hinfo hwords).mpr ⟨hinit, _, _, hstay _, hstay _, rfl⟩, rfl,
        houtside _⟩

/-- Liquidity above the current tick is added when the price rises over its lower end, and added
again when the price falls back. -/
theorem crossing_back_adds_again :
    ∃ g es w, Genesis g ∧ Run g es w ∧
      ((readTick w.pool.ticks 60).liquidityNet = 1000 ∧ w.pool.state.liquidity = 0) ∧
      Yields (crossAndBack w.pool 60 false) fun p' => p'.state.liquidity = 2000 :=
  exists_run 3000 [.mint ⟨7⟩ 1 60 120 1000]
    (fun w _ => ((readTick w.pool.ticks 60).liquidityNet = 1000 ∧ w.pool.state.liquidity = 0) ∧
      Yields (crossAndBack w.pool 60 false) fun p' => p'.state.liquidity = 2000)
    (by decide)

/-- Where a position ends and one of the same size begins, crossing is undone by crossing back. -/
theorem crossing_reverses_at_join :
    ∃ (w : World) (info : TickInfo), w.pool.ticks 60 = some info ∧
      (Yields (crossAndBack w.pool 60 false) (fun p' =>
          p'.state.liquidity = w.pool.state.liquidity ∧ OutsideRestored w.pool p' 60) ↔
        info.liquidityNet = 0) ∧ info.liquidityNet = 0 := by
  obtain ⟨-, -, w, -, -, hinit, hinfo, hwords, hlow, hhigh, hnet⟩ := exists_run 3000
    [.mint ⟨7⟩ 1 (-60) 60 1000, .mint ⟨7⟩ 2 60 120 1000]
    (fun (w : World) _ => w.pool.initialized = true ∧
      w.pool.ticks 60 = some (readTick w.pool.ticks 60) ∧
      CrossingWords w.pool.state (readTick w.pool.ticks 60) ∧
      0 ≤ w.pool.state.liquidity + (readTick w.pool.ticks 60).liquidityNet ∧
      w.pool.state.liquidity + (readTick w.pool.ticks 60).liquidityNet < 2 ^ 128 ∧
      (readTick w.pool.ticks 60).liquidityNet = 0)
    (by decide)
  exact ⟨w, _, hinfo, (crossing_reverses_iff hinit hinfo hwords hlow hhigh).2, hnet⟩

end Swyft.PoolContract
