import Swyft.ClPool.WellFormed

/-!
# Tick table, bitmap and positions

The pool keeps its liquidity three times over: in the position records, in the tick table as
gross and net liquidity, and in the bitmap as one bit for each initialised tick. This file says
that the three agree in every reachable state.

The table is read against two quantities of the position records, the liquidity that starts at a
tick and the liquidity that ends there: gross is their sum and net their difference. An entry or
a bit is there exactly while the gross is positive, so an `xor` never drifts.

## Main definitions

* `liquidityWhere` — the liquidity of the positions whose range satisfies a predicate;
  `startingAt`, `endingAt` and `boundaryLiquidity` are instances
* `Agrees` — a table and a bitmap represent two such families of sums
* `TicksAgree` — the pool's table and bitmap represent those of its positions

## Main results

* `Agrees.updateTick` — `update_tick` and `flip_bitmap` together move one tick
* `Agrees.crossTick` — `cross_tick` moves nothing at an initialised tick
* `Reachable.ticksAgree` — the agreement holds in every reachable state
-/

namespace Swyft.ClPool

open Checked

/-! ### Sums over the position records -/

/-- The liquidity of the positions whose range satisfies `P`. -/
def liquidityWhere (P : ℤ → ℤ → Prop) [∀ l u, Decidable (P l u)] (positions : IdStore Position) :
    ℕ :=
  positions.sum fun q => if P q.tickLower q.tickUpper then q.liquidity else 0

/-- The liquidity of the positions whose range starts at `t`. -/
def startingAt (positions : IdStore Position) (t : ℤ) : ℕ :=
  liquidityWhere (fun l _ => l = t) positions

/-- The liquidity of the positions whose range ends at `t`. -/
def endingAt (positions : IdStore Position) (t : ℤ) : ℕ :=
  liquidityWhere (fun _ u => u = t) positions

/-- The liquidity of the positions that have `t` as a boundary. -/
def boundaryLiquidity (positions : IdStore Position) (t : ℤ) : ℕ :=
  liquidityWhere (fun l u => l = t ∨ u = t) positions

/-- No position has one tick as both boundaries, so the two sums do not overlap. -/
theorem boundaryLiquidity_eq {positions : IdStore Position} {tickSpacing : ℤ}
    (h : ∀ i q, positions.get? i = some q → q.Wf tickSpacing) (t : ℤ) :
    boundaryLiquidity positions t = startingAt positions t + endingAt positions t := by
  simp only [boundaryLiquidity, startingAt, endingAt, liquidityWhere]
  rw [← IdStore.sum_add]
  refine IdStore.sum_congr fun i q hq => ?_
  have hlt := (h i q hq).ordered
  split_ifs <;> omega

/-- All the liquidity there is adds up to far less than a word. -/
theorem Wf.liquidityWhere_lt {w : World} (hw : Wf w) (P : ℤ → ℤ → Prop) [∀ l u, Decidable (P l u)] :
    liquidityWhere P w.pool.positions < 2 ^ 96 := by
  have hle : liquidityWhere P w.pool.positions ≤ w.pool.positions.next * (2 ^ 32 - 1) := by
    refine IdStore.sum_le_mul fun i q hq => ?_
    have := (hw.positions i q hq).liquidity_lt
    split <;> omega
  have := hw.counter
  omega

/-- A position's liquidity is part of every sum its range satisfies. -/
theorem le_liquidityWhere {i : ℕ} {p : Position} {positions : IdStore Position}
    (hp : positions.get? i = some p)
    (P : ℤ → ℤ → Prop) [∀ l u, Decidable (P l u)] (hP : P p.tickLower p.tickUpper) :
    p.liquidity ≤ liquidityWhere P positions := by
  have := IdStore.le_sum hp fun q => if P q.tickLower q.tickUpper then q.liquidity else 0
  rwa [if_pos hP] at this

section Steps

variable (P : ℤ → ℤ → Prop) [∀ l u, Decidable (P l u)] {w w' : World} {owner : Address}
  {id liquidity amount0 amount1 : ℕ} {position : Position}

theorem Added.liquidityWhere_eq {tickLower tickUpper : ℤ}
    (h : Added w owner tickLower tickUpper liquidity w' id amount0 amount1) :
    liquidityWhere P w'.pool.positions
      = liquidityWhere P w.pool.positions + if P tickLower tickUpper then liquidity else 0 := by
  rw [h.world]
  exact IdStore.sum_push _ _ _

theorem Collected.liquidityWhere_eq (h : Collected w owner id position w' amount0 amount1) :
    liquidityWhere P w'.pool.positions = liquidityWhere P w.pool.positions := by
  rw [h.world]
  exact Nat.add_right_cancel (IdStore.sum_replace h.found _ _)

theorem Removed.liquidityWhere_eq (h : Removed w owner id liquidity position w' amount0 amount1) :
    liquidityWhere P w'.pool.positions
        + (if P position.tickLower position.tickUpper then liquidity else 0)
      = liquidityWhere P w.pool.positions := by
  have hle := h.le
  obtain ⟨h0, hpos, -⟩ | ⟨-, hpos, -⟩ := shrinkPosition_cases h.shrunk
  · have key := IdStore.sum_eq_add_erase h.found
      fun r => if P r.tickLower r.tickUpper then r.liquidity else 0
    have h0 : position.liquidity - liquidity = 0 := h0
    rw [hpos, liquidityWhere, liquidityWhere, key]
    split_ifs <;> omega
  · have key := IdStore.sum_replace h.found
      { position with owner, liquidity := position.liquidity - liquidity }
      fun r => if P r.tickLower r.tickUpper then r.liquidity else 0
    rw [hpos, liquidityWhere, liquidityWhere]
    dsimp only at key
    split_ifs at key ⊢ <;> omega

end Steps

/-! ### Representation -/

/-- A tick table and a bitmap represent liquidity starting and ending at each tick. -/
structure Agrees (ticks : Ticks) (bitmap : Bitmap) (tickSpacing : ℤ) (starting ending : ℤ → ℕ) :
    Prop where
  gross : ∀ t, (readTick ticks t).liquidityGross = starting t + ending t
  net : ∀ t, (readTick ticks t).liquidityNet = (starting t : ℤ) - ending t
  entry : ∀ t, (ticks t).isSome = true ↔ 0 < starting t + ending t
  mark : ∀ c, marked bitmap c = true ↔
    0 < starting (c * tickSpacing) + ending (c * tickSpacing)
  words : WordsFit bitmap

theorem grossAfter_eq_ok {gross gross' : ℕ} {delta : ℤ} (h : grossAfter gross delta = .ok gross') :
    (gross' : ℤ) = gross + delta := by
  simp only [grossAfter] at h
  split at h
  case isTrue h0 =>
    obtain ⟨-, rfl⟩ := fitU_eq_ok.mp h
    omega
  case isFalse h0 =>
    simp only [bind_eq_ok, negI128_eq_ok, subU_eq_ok] at h
    obtain ⟨_, ⟨-, rfl⟩, hle, rfl⟩ := h
    omega

theorem updateTick_eq_ok {ticks ticks' : Ticks} {tick delta : ℤ} {upper flipped : Bool}
    (h : updateTick ticks tick delta upper = .ok (ticks', flipped)) :
    ∃ gross : ℕ, (gross : ℤ) = (readTick ticks tick).liquidityGross + delta ∧
      flipped = (decide (gross = 0) != decide ((readTick ticks tick).liquidityGross = 0)) ∧
      ticks' = if gross = 0 then Function.update ticks tick none
        else writeTick ticks tick { readTick ticks tick with
          liquidityGross := gross
          liquidityNet := if upper then (readTick ticks tick).liquidityNet - delta
            else (readTick ticks tick).liquidityNet + delta } := by
  simp only [updateTick, bind_eq_ok, fitI_eq_ok, pure_eq_ok, Prod.mk.injEq] at h
  obtain ⟨gross, hgross, _, ⟨-, rfl⟩, rfl, rfl⟩ := h
  exact ⟨gross, grossAfter_eq_ok hgross, rfl, rfl⟩

theorem readTick_update (ticks : Ticks) (tick t : ℤ) (o : Option TickInfo) :
    readTick (Function.update ticks tick o) t
      = if t = tick then o.getD ⟨0, 0, 0, 0⟩ else readTick ticks t := by
  rw [readTick, Function.update_apply]
  split <;> rfl

/-- An empty table and bitmap represent no liquidity. -/
theorem Agrees.empty (tickSpacing : ℤ) :
    Agrees (fun _ => none) (fun _ => none) tickSpacing (fun _ => 0) (fun _ => 0) where
  gross _ := rfl
  net _ := rfl
  entry _ := by simp
  mark c := by simp [marked, Bits.bitAt, bitmapWord]
  words _ := Nat.two_pow_pos 128

namespace Agrees

variable {ticks ticks' : Ticks} {bitmap : Bitmap} {tickSpacing tick delta : ℤ}
  {starting ending starting' ending' : ℤ → ℕ} {upper flipped : Bool}

/-- **One boundary moves.** After `update_tick` and the `flip_bitmap` it asks for, the table and
the bitmap represent the liquidity moved by `delta` at `tick` and nowhere else. -/
theorem updateTick (h : Agrees ticks bitmap tickSpacing starting ending) (hs : 0 < tickSpacing)
    (hd : tickSpacing ∣ tick)
    (hup : ClPool.updateTick ticks tick delta upper = .ok (ticks', flipped))
    (hstart : ∀ t, (starting' t : ℤ) = starting t + if t = tick ∧ upper = false then delta else 0)
    (hend : ∀ t, (ending' t : ℤ) = ending t + if t = tick ∧ upper = true then delta else 0) :
    Agrees ticks' (flipBitmap bitmap tick tickSpacing flipped) tickSpacing starting' ending' := by
  obtain ⟨gross, hgross, hflip, hticks⟩ := updateTick_eq_ok hup
  have hoff : ∀ t, t ≠ tick → starting' t = starting t ∧ ending' t = ending t := by
    intro t ht
    have h1 := hstart t
    have h2 := hend t
    simp only [ht, false_and, if_false] at h1 h2
    omega
  have hsum : gross = starting' tick + ending' tick := by
    have h1 := hstart tick
    have h2 := hend tick
    rw [h.gross] at hgross
    cases upper <;> simp at h1 h2 <;> omega
  have hread : ∀ t, t ≠ tick → readTick ticks' t = readTick ticks t ∧ ticks' t = ticks t := by
    intro t ht
    rw [hticks]
    split
    · exact ⟨by rw [readTick_update, if_neg ht], Function.update_of_ne ht _ _⟩
    · exact ⟨by rw [writeTick, readTick_update, if_neg ht], Function.update_of_ne ht _ _⟩
  refine ⟨fun t => ?_, fun t => ?_, fun t => ?_, fun c => ?_, h.words.flipBitmap _ _ _⟩
  · by_cases ht : t = tick
    · subst ht
      rw [hticks, ← hsum]
      split
      case isTrue h0 => rw [readTick_update, if_pos rfl, h0]; rfl
      case isFalse h0 => rw [writeTick, readTick_update, if_pos rfl]; rfl
    · rw [(hread t ht).1, h.gross, (hoff t ht).1, (hoff t ht).2]
  · by_cases ht : t = tick
    · subst ht
      have h1 := hstart t
      have h2 := hend t
      rw [hticks]
      split
      case isTrue h0 =>
        rw [readTick_update, if_pos rfl]
        change (0 : ℤ) = _
        omega
      case isFalse h0 =>
        rw [writeTick, readTick_update, if_pos rfl, Option.getD_some, h.net]
        cases upper <;> simp at h1 h2 ⊢ <;> omega
    · rw [(hread t ht).1, h.net, (hoff t ht).1, (hoff t ht).2]
  · by_cases ht : t = tick
    · subst ht
      rw [hticks, ← hsum]
      split
      case isTrue h0 => simp [h0]
      case isFalse h0 => simp [writeTick, Nat.pos_of_ne_zero h0]
    · rw [(hread t ht).2, h.entry, (hoff t ht).1, (hoff t ht).2]
  · rw [marked_flipBitmap _ hs]
    by_cases hc : c = tick / tickSpacing
    · have hct : c * tickSpacing = tick := by rw [hc]; exact Int.ediv_mul_cancel hd
      have hmark := h.mark c
      rw [hct] at hmark ⊢
      rw [← hsum, hflip, h.gross]
      rw [decide_eq_true hc, Bool.and_true]
      cases hm : marked bitmap c with
      | true =>
        have := hmark.mp hm
        by_cases h0 : gross = 0 <;> simp [h0] <;> omega
      | false =>
        have : ¬ 0 < starting tick + ending tick := fun h' => by simp [hmark.mpr h'] at hm
        by_cases h0 : gross = 0 <;> simp [h0] <;> omega
    · have hct : c * tickSpacing ≠ tick := fun h' =>
        hc (by rw [← h', Int.mul_ediv_cancel _ hs.ne'])
      rw [decide_eq_false hc, Bool.and_false, Bool.xor_false, h.mark, (hoff _ hct).1,
        (hoff _ hct).2]

/-- Rewriting the outside growth of an initialised tick leaves its liquidity alone. -/
theorem writeOutside (h : Agrees ticks bitmap tickSpacing starting ending)
    (hpos : 0 < starting tick + ending tick) (outside0 outside1 : ℕ) :
    Agrees (writeTick ticks tick { readTick ticks tick with
      feeGrowthOutside0 := outside0, feeGrowthOutside1 := outside1 }) bitmap tickSpacing starting
      ending := by
  refine ⟨fun t => ?_, fun t => ?_, fun t => ?_, h.mark, h.words⟩
  · rw [← h.gross, writeTick, readTick_update]
    split
    case isTrue ht => subst ht; rfl
    case isFalse => rfl
  · rw [← h.net, writeTick, readTick_update]
    split
    case isTrue ht => subst ht; rfl
    case isFalse => rfl
  · rw [writeTick, Function.update_apply]
    split
    case isTrue ht => subst ht; simpa using hpos
    case isFalse => exact h.entry t

/-- Crossing an initialised tick leaves its liquidity alone. -/
theorem crossTick (h : Agrees ticks bitmap tickSpacing starting ending)
    (hpos : 0 < starting tick + ending tick) (fg0 fg1 : ℕ) :
    Agrees (ClPool.crossTick ticks tick fg0 fg1) bitmap tickSpacing starting ending :=
  h.writeOutside hpos _ _

/-- The tick the search finds is initialised. -/
theorem found_pos (h : Agrees ticks bitmap tickSpacing starting ending) (hs : 0 < tickSpacing)
    {start found : ℤ} {lte : Bool}
    (hf : nextInitializedTick bitmap start tickSpacing lte = .ok (found, true)) :
    0 < starting found + ending found := by
  cases lte with
  | true =>
    obtain ⟨c, hc⟩ := nextInitializedTick_down h.words hs hf
    rw [hc.tick_eq]
    exact (h.mark c).mp hc.mark
  | false =>
    obtain ⟨c, hc⟩ := nextInitializedTick_up h.words hs hf
    rw [hc.tick_eq]
    exact (h.mark c).mp hc.mark

end Agrees

/-! ### The pool -/

/-- The pool's tick table and bitmap represent its positions. -/
def TicksAgree (p : Pool) : Prop :=
  Agrees p.ticks p.bitmap p.tickSpacing (startingAt p.positions) (endingAt p.positions)

/-- Both boundaries of a range move by `delta`. -/
theorem Agrees.updateBoundaries {p : Pool} {tickLower tickUpper delta : ℤ} {ticks' : Ticks}
    {bitmap' : Bitmap} {starting ending starting' ending' : ℤ → ℕ}
    (h : Agrees p.ticks p.bitmap p.tickSpacing starting ending) (hs : 0 < p.tickSpacing)
    (hlower : p.tickSpacing ∣ tickLower) (hupper : p.tickSpacing ∣ tickUpper)
    (hup : ClPool.updateBoundaries p tickLower tickUpper delta = .ok (ticks', bitmap'))
    (hstart : ∀ t, (starting' t : ℤ) = starting t + if tickLower = t then delta else 0)
    (hend : ∀ t, (ending' t : ℤ) = ending t + if tickUpper = t then delta else 0) :
    Agrees ticks' bitmap' p.tickSpacing starting' ending' := by
  simp only [ClPool.updateBoundaries, bind_eq_ok, Prod.exists, pure_eq_ok, Prod.mk.injEq] at hup
  obtain ⟨ticks₁, lowerFlipped, h₁, ticks₂, upperFlipped, h₂, rfl, rfl⟩ := hup
  have hmid : Agrees ticks₁ (flipBitmap p.bitmap tickLower p.tickSpacing lowerFlipped)
      p.tickSpacing starting' ending :=
    h.updateTick hs hlower h₁ (fun t => by simpa [eq_comm] using hstart t) (fun t => by simp)
  exact hmid.updateTick hs hupper h₂ (fun t => by simp) (fun t => by simpa [eq_comm] using hend t)

/-- The swap loop leaves the agreement alone: it only crosses ticks that are initialised. -/
theorem Agrees.swapLoop {p : Pool} {zeroForOne : Bool} {limit rounds : ℕ} {st final : SwapState}
    {starting ending : ℤ → ℕ}
    (h : Agrees st.ticks p.bitmap p.tickSpacing starting ending) (hs : 0 < p.tickSpacing)
    (hloop : ClPool.swapLoop p zeroForOne limit rounds st = .ok final) :
    Agrees final.ticks p.bitmap p.tickSpacing starting ending := by
  refine swapLoop_preserves (I := fun st => Agrees st.ticks p.bitmap p.tickSpacing starting ending)
    (fun st st' goesOn hround hI => ?_) hloop h
  cases hround with
  | stop _ move _ =>
    obtain ⟨-, -, d0, d1, -, rfl⟩ := fullMove_eq_ok.mp move
    exact hI
  | within _ _ move =>
    obtain ⟨next, -, -, d0, d1, -, rfl⟩ := partialMove_eq_ok.mp move
    exact hI
  | cross found move _ _ crossing =>
    obtain ⟨-, -, d0, d1, -, rfl⟩ := fullMove_eq_ok.mp move
    rw [crossNext_eq_ok crossing]
    simp only [findTarget, bind_eq_ok, pure_eq_ok, Prod.exists, Prod.mk.injEq] at found
    obtain ⟨start, -, next, initialized, hfound, rfl, rfl, -⟩ := found
    exact hI.crossTick (hI.found_pos hs hfound) _ _

theorem computeSwap_eq_ok {p : Pool} {zeroForOne : Bool} {amountIn limit : ℕ}
    {outcome : SwapOutcome} :
    computeSwap p zeroForOne amountIn limit = .ok outcome ↔
      ∃ net, netInput p amountIn = .ok net ∧ net ≠ 0 ∧ p.liquidity ≠ 0 ∧
        swapLoop p zeroForOne limit maxSwapIterations (swapStart p net) = .ok outcome.final ∧
        outcome.final.amountRemaining ≤ net ∧
        outcome.tradedBase = net - outcome.final.amountRemaining ∧
        checkedFee outcome.tradedBase p.feeTier = .ok outcome.feeOnTraded ∧
        outcome.tradedBase + outcome.feeOnTraded < 2 ^ 127 ∧
        outcome.inputPaid = outcome.tradedBase + outcome.feeOnTraded := by
  simp only [computeSwap, bind_eq_ok, require_eq_ok, exists_const, subU_eq_ok, fitU_eq_ok,
    pure_eq_ok]
  constructor
  · rintro ⟨net, hn, h0, hl, final, hloop, _, ⟨hle, rfl⟩, fee, hfee, _, ⟨hfit, rfl⟩, rfl⟩
    exact ⟨net, hn, h0, hl, hloop, hle, rfl, hfee, hfit, rfl⟩
  · rintro ⟨net, hn, h0, hl, hloop, hle, ht, hfee, hfit, hpaid⟩
    refine ⟨net, hn, h0, hl, _, hloop, _, ⟨hle, rfl⟩, outcome.feeOnTraded, by rw [← ht]; exact hfee,
      _, ⟨by rw [← ht]; exact hfit, rfl⟩, ?_⟩
    rw [← ht, ← hpaid]

theorem Genesis.ticksAgree {w : World} (h : Genesis w) : TicksAgree w.pool := by
  obtain ⟨self, tokens, oracle, now, token0, token1, feeTier, sqrtPriceX96, nftContract, h⟩ := h
  obtain ⟨-, rfl⟩ := genesis_eq_ok h
  exact Agrees.empty _

theorem Added.ticksAgree {w w' : World} {owner : Address} {tickLower tickUpper : ℤ}
    {liquidity id amount0 amount1 : ℕ} (hw : Wf w) (ht : TicksAgree w.pool)
    (h : Added w owner tickLower tickUpper liquidity w' id amount0 amount1) :
    TicksAgree w'.pool := by
  have hl : (asI128 liquidity : ℤ) = liquidity :=
    asI128_of_lt (lt_trans h.position_wf.liquidity_lt (by decide))
  have hb := h.boundaries
  rw [hl] at hb
  have hmoved : ∀ (P : ℤ → ℤ → Prop) [∀ l u, Decidable (P l u)],
      (liquidityWhere P w'.pool.positions : ℤ) = liquidityWhere P w.pool.positions
        + if P tickLower tickUpper then (liquidity : ℤ) else 0 := by
    intro P _
    rw [h.liquidityWhere_eq P]
    split_ifs <;> rfl
  have hagree := ht.updateBoundaries hw.spacing_pos h.validLower.dvd h.validUpper.dvd hb
    (fun t => hmoved fun l _ => l = t) (fun t => hmoved fun _ u => u = t)
  rw [h.world] at hagree ⊢
  exact hagree

theorem Removed.ticksAgree {w w' : World} {owner : Address} {id liquidity amount0 amount1 : ℕ}
    {position : Position} (hw : Wf w) (ht : TicksAgree w.pool)
    (h : Removed w owner id liquidity position w' amount0 amount1) : TicksAgree w'.pool := by
  have hp := hw.positions _ _ h.found
  obtain ⟨delta, hdelta, hb⟩ := h.boundaries
  have hlt : liquidity < 2 ^ 127 :=
    lt_of_le_of_lt h.le (lt_trans hp.liquidity_lt (by decide))
  obtain ⟨-, rfl⟩ := negI128_eq_ok.mp hdelta
  rw [asI128_of_lt hlt] at hb
  have hmoved : ∀ (P : ℤ → ℤ → Prop) [∀ l u, Decidable (P l u)],
      (liquidityWhere P w'.pool.positions : ℤ) = liquidityWhere P w.pool.positions
        + if P position.tickLower position.tickUpper then -(liquidity : ℤ) else 0 := by
    intro P _
    have := h.liquidityWhere_eq P
    split_ifs at this ⊢ <;> omega
  have hagree := ht.updateBoundaries hw.spacing_pos hp.validLower.dvd hp.validUpper.dvd hb
    (fun t => hmoved fun l _ => l = t) (fun t => hmoved fun _ u => u = t)
  rw [h.world] at hagree ⊢
  exact hagree

/-- Every step keeps the agreement. -/
theorem TicksAgree.step {w w' : World} {e : Event} (hw : Wf w) (ht : TicksAgree w.pool)
    (hs : Step w e w') : TicksAgree w'.pool := by
  cases Step.cases hs with
  | add h => exact h.ticksAgree hw ht
  | remove h => exact h.ticksAgree hw ht
  | swap h =>
    obtain ⟨net, -, -, -, hloop, -⟩ := computeSwap_eq_ok.mp h.computed
    obtain ⟨fg0, fg1, -, -, hpool⟩ := settlePool_eq_ok.mp h.settled
    have hstart : Agrees (swapStart w.pool net).ticks w.pool.bitmap w.pool.tickSpacing _ _ := ht
    have hagree := hstart.swapLoop hw.spacing_pos hloop
    rw [h.world, hpool]
    exact hagree
  | collect h =>
    have hstart : startingAt w'.pool.positions = startingAt w.pool.positions :=
      funext fun t => h.liquidityWhere_eq _
    have hend : endingAt w'.pool.positions = endingAt w.pool.positions :=
      funext fun t => h.liquidityWhere_eq _
    rw [TicksAgree, hstart, hend, h.world]
    exact ht
  | transferNft _ h => exact ht
  | closeLedger => exact ht

/-- The agreement holds in every reachable state. -/
theorem Reachable.ticksAgree {w : World} (h : Reachable w) : TicksAgree w.pool :=
  (h.invariant (I := fun w => Wf w ∧ TicksAgree w.pool)
    (fun _ hg => ⟨hg.wf, hg.ticksAgree⟩)
    fun _ _ _ hw hs => ⟨hw.1.step hs, hw.2.step hw.1 hs⟩).2

/-- **Tick table, bitmap and positions agree.** Gross and net liquidity are the sums over the
positions with that boundary, and an entry and a bit are there exactly while the gross is
positive. No bit is set for anything but a usable tick, and none past the width of a word. -/
theorem tick_table_bitmap_positions_agree {w : World} (h : Reachable w) :
    (∀ t, (readTick w.pool.ticks t).liquidityGross = boundaryLiquidity w.pool.positions t ∧
      (readTick w.pool.ticks t).liquidityNet
        = (startingAt w.pool.positions t : ℤ) - endingAt w.pool.positions t ∧
      ((w.pool.ticks t).isSome = true ↔ 0 < boundaryLiquidity w.pool.positions t) ∧
      (0 < boundaryLiquidity w.pool.positions t → w.pool.tickSpacing ∣ t) ∧
      (w.pool.tickSpacing ∣ t → (marked w.pool.bitmap (t / w.pool.tickSpacing) = true ↔
        0 < boundaryLiquidity w.pool.positions t))) ∧
    ∀ (wordPos : ℤ) (bit : ℕ), (bitmapWord w.pool.bitmap wordPos).testBit bit = true →
      bit < 128 ∧
        0 < boundaryLiquidity w.pool.positions ((wordPos * 128 + bit) * w.pool.tickSpacing) := by
  have hw := h.wf
  have ha := h.ticksAgree
  have hb := boundaryLiquidity_eq hw.positions
  have hs := hw.spacing_pos
  refine ⟨fun t => ⟨by rw [hb, ha.gross], ha.net t, by rw [hb, ha.entry], fun hpos => ?_,
    fun hd => ?_⟩, fun wordPos bit hbit => ?_⟩
  · by_contra hnd
    refine hpos.ne' (IdStore.sum_eq_zero fun i q hq => if_neg ?_)
    rintro (rfl | rfl)
    · exact hnd (hw.positions i q hq).validLower.dvd
    · exact hnd (hw.positions i q hq).validUpper.dvd
  · rw [ha.mark, Int.ediv_mul_cancel hd, hb]
  · have hlt : bit < 128 := by
      by_contra hge
      rw [Nat.testBit_lt_two_pow (lt_of_lt_of_le (ha.words wordPos)
        (Nat.pow_le_pow_right (by decide) (not_lt.mp hge)))] at hbit
      cases hbit
    refine ⟨hlt, ?_⟩
    rw [hb, ← ha.mark, marked_of_word wordPos hlt]
    exact hbit

/-- After two overlapping positions and the partial removal of one. -/
theorem tick_table_after_partial_removal :
    ∃ w, Reachable w ∧ boundaryLiquidity w.pool.positions 60 = 1500 ∧
      (readTick w.pool.ticks 60).liquidityGross = boundaryLiquidity w.pool.positions 60 ∧
      marked w.pool.bitmap 1 = true := by
  obtain ⟨w, hr, hsum, hspacing⟩ := exists_reachable 3000 unitPrice
    [.addLiquidity ⟨7⟩ (-60) 60 1000, .addLiquidity ⟨8⟩ 60 120 700, .removeLiquidity ⟨8⟩ 1 200]
    (fun w => boundaryLiquidity w.pool.positions 60 = 1500 ∧ w.pool.tickSpacing = 60)
    (by decide)
  obtain ⟨hgross, -, -, -, hbit⟩ := (tick_table_bitmap_positions_agree hr).1 60
  rw [hspacing] at hbit
  exact ⟨w, hr, hsum, hgross, (hbit (by decide)).mpr (by rw [hsum]; decide)⟩

end Swyft.ClPool
