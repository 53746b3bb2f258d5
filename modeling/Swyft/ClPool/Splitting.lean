import Swyft.ClPool.Ladder

/-!
# Splitting a swap in two

Two swaps in a row compared with one swap of both amounts. The one swap goes through the rounds of
the first of the two with more input left, up to its last round; there the two part ways. Where
that round ends on a tick, the second swap takes up where the first stopped. Where it ends on the
way, the price has not moved, and the second swap trades the same stretch of the range again.

## Main definitions

* `segments` — the rounds a swap takes
* `EndsAtTick`, `EndsInside` — how the first swap's last round ends
* `Fair` — the splittings that gain nothing

## Main results

* `swapLoop_last` — the rounds before the last, with more input
* `Alike.loop` — two loops from states that look alike pay the same
* `no_gain_from_splitting` — a fair splitting pays no more than the swap at once, and a splitting
  inside one stretch only if it is fair
-/

namespace Swyft.ClPool

open Checked

variable {p p' : Pool} {zeroForOne : Bool} {limit : ℕ}

/-! ### The search -/

/-- The tick a round that starts from tick `k` heads for. -/
def searchTick (p : Pool) (zeroForOne : Bool) (k : ℤ) : Res (ℤ × Bool) := do
  let start ← searchFrom zeroForOne k
  nextInitializedTick p.bitmap start p.tickSpacing zeroForOne

theorem findTarget_eq_ok {st : SwapState} {next : ℤ} {initialized : Bool} {target : ℕ} :
    findTarget p zeroForOne limit st = .ok (next, initialized, target) ↔
      searchTick p zeroForOne st.currentTick = .ok (next, initialized) ∧
        target = swapTarget zeroForOne limit next initialized := by
  simp only [findTarget, searchTick, bind_eq_ok, pure_eq_ok, Prod.exists, Prod.mk.injEq]
  constructor
  · rintro ⟨start, hstart, next, initialized, hnext, rfl, rfl, rfl⟩
    exact ⟨⟨start, hstart, hnext⟩, rfl⟩
  · rintro ⟨⟨start, hstart, hnext⟩, rfl⟩
    exact ⟨start, hstart, _, _, hnext, rfl, rfl, rfl⟩

/-! ### More input -/

/-- The same loop state with more input left. -/
def SwapState.plus (st : SwapState) (more : ℕ) : SwapState :=
  { st with amountRemaining := st.amountRemaining + more }

/-- A round whose full move leaves input, off the limit, crosses the tick it moved to. -/
theorem swapStep_cross {s moved crossed : SwapState} {next : ℤ} {target : ℕ}
    (found : findTarget p zeroForOne limit s = .ok (next, true, target))
    (move : fullMove p zeroForOne s target = .ok moved) (spare : moved.amountRemaining ≠ 0)
    (inside : ¬ atLimit zeroForOne moved.sqrtPrice limit)
    (crossing : crossNext p zeroForOne moved next = .ok crossed) :
    swapStep p zeroForOne limit s = .ok (crossed, decide (crossed.liquidity ≠ 0)) := by
  have hle := (fullMove_eq_ok.mp move).2.1
  simp only [swapStep, found, ok_bind, if_pos hle, move, spare, inside, Bool.true_eq_false,
    or_self, if_false, crossing]
  rfl

theorem fullMove_plus {st moved : SwapState} {target : ℕ} (more : ℕ)
    (h : fullMove p zeroForOne st target = .ok moved) :
    fullMove p zeroForOne (st.plus more) target = .ok (moved.plus more) := by
  obtain ⟨hout, hle, d0, d1, hfee, rfl⟩ := fullMove_eq_ok.mp h
  refine fullMove_eq_ok.mpr ⟨hout, le_trans hle (Nat.le_add_right _ _), d0, d1, hfee, ?_⟩
  simp only [SwapState.plus, Nat.sub_add_comm hle]

theorem crossNext_plus {st crossed : SwapState} {next : ℤ} (more : ℕ)
    (h : crossNext p zeroForOne st next = .ok crossed) :
    crossNext p zeroForOne (st.plus more) next = .ok (crossed.plus more) := by
  simp only [crossNext, bind_eq_ok, pure_eq_ok] at h ⊢
  obtain ⟨net, hnet, rfl⟩ := h
  exact ⟨net, hnet, rfl⟩

/-- A round that goes on does the same with more input. -/
theorem swapStep_plus {st st' : SwapState} (more : ℕ)
    (h : swapStep p zeroForOne limit st = .ok (st', true)) :
    swapStep p zeroForOne limit (st.plus more) = .ok (st'.plus more, true) ∧
      st'.amountRemaining ≠ 0 := by
  generalize hgoes : true = goesOn at h
  cases swapStep_cases h with
  | stop _ _ _ => cases hgoes
  | within _ _ _ => cases hgoes
  | @cross next target moved crossed found move spare inside crossing =>
    have hspare : (moved.plus more).amountRemaining ≠ 0 := by
      simp only [SwapState.plus]
      omega
    have hcross := swapStep_cross (s := st.plus more) found (fullMove_plus more move) hspare inside
      (crossNext_plus more crossing)
    exact ⟨hcross, by rw [crossNext_eq_ok crossing]; exact spare⟩

/-- **Up to the last round.** The loop does its last round from `last`; with more input it comes
to `last` in the same way and goes on from there. -/
theorem swapLoop_last {rounds : ℕ} {st final : SwapState} (more : ℕ)
    (h : swapLoop p zeroForOne limit rounds st = .ok final) (hrem : st.amountRemaining ≠ 0) :
    ∃ last left before, (visited p zeroForOne limit rounds st).getLast? = some last ∧
      (visited p zeroForOne limit rounds st).length = before + 1 ∧
      last.amountRemaining ≠ 0 ∧
      swapStep p zeroForOne limit last = .ok (final, false) ∧
      swapLoop p zeroForOne limit rounds (st.plus more)
        = swapLoop p zeroForOne limit (left + 1) (last.plus more) ∧
      (visited p zeroForOne limit rounds (st.plus more)).length
        = before + (visited p zeroForOne limit (left + 1) (last.plus more)).length := by
  induction rounds generalizing st with
  | zero =>
    obtain ⟨_, _, _, hzero, -⟩ := swapLoop_round hrem h
    cases hzero
  | succ rounds ih =>
    obtain ⟨left, st', goesOn, hleft, hstep, h⟩ := swapLoop_round hrem h
    cases hleft
    cases goesOn with
    | false =>
      obtain rfl : final = st' := h
      exact ⟨st, rounds, 0, by simp [visited, hrem, hstep], by simp [visited, hrem, hstep], hrem,
        hstep, rfl, (Nat.zero_add _).symm⟩
    | true =>
      obtain ⟨hstep', hrem'⟩ := swapStep_plus more hstep
      obtain ⟨last, left, before, hlast, hcount, hspare, hend, hmore, hcount'⟩ := ih h hrem'
      have hspare' : (st.plus more).amountRemaining ≠ 0 := by
        simp only [SwapState.plus]
        omega
      refine ⟨last, left, before + 1, ?_, ?_, hspare, hend, ?_, ?_⟩
      · simp only [visited, if_neg hrem, hstep]
        rw [List.getLast?_cons, hlast]
        rfl
      · simp only [visited, if_neg hrem, hstep, List.length_cons, hcount]
      · rw [swapLoop, if_neg hspare', hstep', ok_bind]
        exact hmore
      · simp only [visited, if_neg hspare', hstep', List.length_cons, hcount']
        omega

/-! ### States that look alike -/

/-- The loop cannot tell the two states apart but for the output so far and the fee growth. -/
structure Alike (st st' : SwapState) : Prop where
  remaining : st'.amountRemaining = st.amountRemaining
  price : st'.sqrtPrice = st.sqrtPrice
  liquidity : st'.liquidity = st.liquidity
  tick : st'.currentTick = st.currentTick
  nets : ∀ t, (readTick st'.ticks t).liquidityNet = (readTick st.ticks t).liquidityNet

/-- The search cannot tell the two pools apart. -/
structure SameMap (p p' : Pool) : Prop where
  bitmap : p'.bitmap = p.bitmap
  spacing : p'.tickSpacing = p.tickSpacing

theorem SameMap.searchTick (h : SameMap p p') (k : ℤ) :
    ClPool.searchTick p' zeroForOne k = ClPool.searchTick p zeroForOne k := by
  simp only [ClPool.searchTick, h.bitmap, h.spacing]

theorem liquidityNet_crossTick (ticks : Ticks) (tick t : ℤ) (fg0 fg1 : ℕ) :
    (readTick (crossTick ticks tick fg0 fg1) t).liquidityNet = (readTick ticks t).liquidityNet := by
  rw [crossTick, writeTick, readTick_update]
  split
  case isTrue ht => rw [ht, Option.getD_some]
  case isFalse => rfl

section Alike

variable {st st' mid mid' final final' : SwapState} {goesOn goesOn' : Bool}

/-- The target of a round from states that look alike. -/
theorem Alike.target (h : Alike st st') (hp : SameMap p p') {next next' : ℤ}
    {initialized initialized' : Bool} {target target' : ℕ}
    (hfound : findTarget p zeroForOne limit st = .ok (next, initialized, target))
    (hfound' : findTarget p' zeroForOne limit st' = .ok (next', initialized', target')) :
    next' = next ∧ initialized' = initialized ∧ target' = target := by
  rw [findTarget_eq_ok] at hfound hfound'
  rw [hp.searchTick, h.tick, hfound.1] at hfound'
  cases hfound'.1
  exact ⟨rfl, rfl, by rw [hfound'.2, hfound.2]⟩

theorem Alike.fullMove (h : Alike st st') {target : ℕ}
    (hmove : fullMove p zeroForOne st target = .ok mid)
    (hmove' : fullMove p' zeroForOne st' target = .ok mid') :
    Alike mid mid' ∧ mid'.amountOut + st.amountOut = mid.amountOut + st'.amountOut := by
  obtain ⟨-, -, d0, d1, -, rfl⟩ := fullMove_eq_ok.mp hmove
  obtain ⟨-, -, e0, e1, -, rfl⟩ := fullMove_eq_ok.mp hmove'
  simp only [h.price, h.liquidity]
  exact ⟨⟨by simp only [h.remaining], rfl, rfl, h.tick, h.nets⟩, by omega⟩

theorem Alike.partialMove (h : Alike st st') (hmove : partialMove p zeroForOne st = .ok mid)
    (hmove' : partialMove p' zeroForOne st' = .ok mid') :
    Alike mid mid' ∧ mid'.amountOut + st.amountOut = mid.amountOut + st'.amountOut := by
  obtain ⟨next, hnext, -, d0, d1, -, rfl⟩ := partialMove_eq_ok.mp hmove
  obtain ⟨next', hnext', -, e0, e1, -, rfl⟩ := partialMove_eq_ok.mp hmove'
  rw [h.price, h.liquidity, h.remaining, hnext] at hnext'
  cases hnext'
  simp only [h.price, h.liquidity]
  exact ⟨⟨rfl, rfl, rfl, h.tick, h.nets⟩, by omega⟩

theorem Alike.crossNext (h : Alike st st') {next : ℤ}
    (hcross : crossNext p zeroForOne st next = .ok mid)
    (hcross' : crossNext p' zeroForOne st' next = .ok mid') :
    Alike mid mid' ∧ mid.amountOut = st.amountOut ∧ mid'.amountOut = st'.amountOut := by
  rw [crossNext_eq_ok hcross, crossNext_eq_ok hcross']
  refine ⟨⟨h.remaining, h.price, ?_, rfl, fun t => ?_⟩, rfl, rfl⟩
  · simp only [h.liquidity, h.nets]
  · simp only [liquidityNet_crossTick, h.nets]

/-- **A round from states that look alike** ends in states that look alike, and pays the same. -/
theorem Alike.round (h : Alike st st') (hp : SameMap p p')
    (hstep : swapStep p zeroForOne limit st = .ok (mid, goesOn))
    (hstep' : swapStep p' zeroForOne limit st' = .ok (mid', goesOn')) :
    Alike mid mid' ∧ mid'.amountOut + st.amountOut = mid.amountOut + st'.amountOut ∧
      goesOn' = goesOn := by
  cases swapStep_cases hstep with
  | stop found move stops =>
    have hle := (fullMove_eq_ok.mp move).2.1
    cases swapStep_cases hstep' with
    | stop found' move' stops' =>
      obtain ⟨rfl, rfl, rfl⟩ := h.target hp found found'
      obtain ⟨hmid, hout⟩ := h.fullMove move move'
      exact ⟨hmid, hout, rfl⟩
    | cross found' move' spare' inside' crossing' =>
      obtain ⟨rfl, rfl, rfl⟩ := h.target hp found found'
      obtain ⟨hmid, -⟩ := h.fullMove move move'
      rw [hmid.remaining] at spare'
      rw [hmid.price] at inside'
      simp [spare', inside'] at stops
    | within found' short' move' =>
      obtain ⟨rfl, rfl, rfl⟩ := h.target hp found found'
      rw [h.price, h.liquidity, h.remaining] at short'
      omega
  | cross found move spare inside crossing =>
    have hle := (fullMove_eq_ok.mp move).2.1
    cases swapStep_cases hstep' with
    | stop found' move' stops' =>
      obtain ⟨rfl, rfl, rfl⟩ := h.target hp found found'
      obtain ⟨hmid, -⟩ := h.fullMove move move'
      rw [hmid.remaining, hmid.price] at stops'
      simp [spare, inside] at stops'
    | cross found' move' spare' inside' crossing' =>
      obtain ⟨rfl, -, rfl⟩ := h.target hp found found'
      obtain ⟨hmoved, hout⟩ := h.fullMove move move'
      obtain ⟨hmid, hsame, hsame'⟩ := hmoved.crossNext crossing crossing'
      exact ⟨hmid, by omega, by rw [hmid.liquidity]⟩
    | within found' short' move' =>
      obtain ⟨rfl, -, rfl⟩ := h.target hp found found'
      rw [h.price, h.liquidity, h.remaining] at short'
      omega
  | within found short move =>
    cases swapStep_cases hstep' with
    | stop found' move' stops' =>
      obtain ⟨rfl, rfl, rfl⟩ := h.target hp found found'
      have hle := (fullMove_eq_ok.mp move').2.1
      rw [h.price, h.liquidity, h.remaining] at hle
      omega
    | cross found' move' spare' inside' crossing' =>
      obtain ⟨rfl, -, rfl⟩ := h.target hp found found'
      have hle := (fullMove_eq_ok.mp move').2.1
      rw [h.price, h.liquidity, h.remaining] at hle
      omega
    | within found' short' move' =>
      obtain ⟨hmid, hout⟩ := h.partialMove move move'
      exact ⟨hmid, hout, rfl⟩

/-- **Loops from states that look alike** pay the same. -/
theorem Alike.loop (h : Alike st st') (hp : SameMap p p') {rounds rounds' : ℕ}
    (hloop : swapLoop p zeroForOne limit rounds st = .ok final)
    (hloop' : swapLoop p' zeroForOne limit rounds' st' = .ok final') :
    final'.amountOut + st.amountOut = final.amountOut + st'.amountOut := by
  induction rounds generalizing rounds' st st' with
  | zero =>
    by_cases hrem : st.amountRemaining = 0
    · rw [swapLoop_done hrem hloop, swapLoop_done (h.remaining.trans hrem) hloop', Nat.add_comm]
    · obtain ⟨_, _, _, hzero, -⟩ := swapLoop_round hrem hloop
      cases hzero
  | succ rounds ih =>
    by_cases hrem : st.amountRemaining = 0
    · rw [swapLoop_done hrem hloop, swapLoop_done (h.remaining.trans hrem) hloop', Nat.add_comm]
    obtain ⟨left, mid, goesOn, hleft, hstep, hrest⟩ := swapLoop_round hrem hloop
    obtain ⟨left', mid', goesOn', -, hstep', hrest'⟩ :=
      swapLoop_round (h.remaining ▸ hrem) hloop'
    cases hleft
    obtain ⟨hmid, hout, rfl⟩ := h.round hp hstep hstep'
    cases goesOn' with
    | true =>
      have := ih hmid hrest hrest'
      omega
    | false =>
      cases hrest
      cases hrest'
      exact hout

end Alike

/-! ### The two ways to split -/

/-- The rounds of a swap. -/
def segments (p : Pool) (zeroForOne : Bool) (limit amountIn : ℕ) : ℕ :=
  (visited p zeroForOne limit maxSwapIterations (swapStart p (afterFee p amountIn))).length

/-- The state from which a swap does its last round. -/
def lastRound (p : Pool) (zeroForOne : Bool) (limit amountIn : ℕ) : Option SwapState :=
  (visited p zeroForOne limit maxSwapIterations (swapStart p (afterFee p amountIn))).getLast?

/-- The input runs out exactly at an initialised tick, and the next swap looks for that tick
again. -/
def EndsAtTick (p : Pool) (zeroForOne : Bool) (limit : ℕ) (st : SwapState) : Prop :=
  Ensures (findTarget p zeroForOne limit st) fun found =>
    found.2.1 = true ∧
    amountConsumed zeroForOne st.sqrtPrice found.2.2 st.liquidity = st.amountRemaining ∧
    Ensures (searchTick p zeroForOne (sqrtPriceToTick found.2.2)) fun again =>
      again = (found.1, true)

/-- The input runs out on the way to the next tick, also with `more`, and the next swap looks for
that tick again. -/
def EndsInside (p : Pool) (zeroForOne : Bool) (limit : ℕ) (st : SwapState) (more : ℕ) : Prop :=
  Ensures (findTarget p zeroForOne limit st) fun found =>
    st.amountRemaining + more < amountConsumed zeroForOne st.sqrtPrice found.2.2 st.liquidity ∧
    Ensures (searchTick p zeroForOne (sqrtPriceToTick st.sqrtPrice)) fun again =>
      again = (found.1, found.2.1)

/-- What the swap at once has left for after the swap of `a`. -/
def rest (p : Pool) (a b : ℕ) : ℕ := afterFee p (a + b) - afterFee p a

/-- The swap of `a` ends at a tick and the fees add up, or all ends inside one stretch, where the
two payments are at most one more than the single one. -/
def Fair (p : Pool) (zeroForOne : Bool) (limit a b : ℕ) : Prop :=
  ∀ st ∈ lastRound p zeroForOne limit a,
    EndsAtTick p zeroForOne limit st ∧ afterFee p (a + b) = afterFee p a + afterFee p b ∨
    EndsInside p zeroForOne limit st (rest p a b) ∧
      paidInside zeroForOne st st.amountRemaining + paidInside zeroForOne st (afterFee p b)
        ≤ paidInside zeroForOne st (st.amountRemaining + rest p a b) + 1

instance (p : Pool) (zeroForOne : Bool) (limit : ℕ) (st : SwapState) :
    Decidable (EndsAtTick p zeroForOne limit st) :=
  inferInstanceAs (Decidable (Ensures _ _))

instance (p : Pool) (zeroForOne : Bool) (limit : ℕ) (st : SwapState) (more : ℕ) :
    Decidable (EndsInside p zeroForOne limit st more) :=
  inferInstanceAs (Decidable (Ensures _ _))

instance (p : Pool) (zeroForOne : Bool) (limit a b : ℕ) : Decidable (Fair p zeroForOne limit a b) :=
  inferInstanceAs (Decidable (∀ st ∈ lastRound p zeroForOne limit a, _))

/-! ### The last round of the first swap -/

section LastRound

variable {st final finalAll finalRest : SwapState} {more k : ℕ}

/-- A loop whose input does not reach its first target does one round. -/
theorem swapLoop_inside {s : SwapState} {rounds : ℕ} {next : ℤ} {initialized : Bool} {target : ℕ}
    (hl : s.liquidity ≠ 0) (hrem : s.amountRemaining ≠ 0)
    (hfound : findTarget p zeroForOne limit s = .ok (next, initialized, target))
    (hshort : s.amountRemaining < amountConsumed zeroForOne s.sqrtPrice target s.liquidity)
    (h : swapLoop p zeroForOne limit rounds s = .ok final) :
    final.amountOut = s.amountOut + paidInside zeroForOne s s.amountRemaining ∧
      (visited p zeroForOne limit rounds s).length = 1 := by
  obtain ⟨left, s', goesOn, rfl, hstep, hend⟩ := swapLoop_round hrem h
  obtain ⟨hout, rfl⟩ := swapStep_inside hl hfound hshort hstep
  simp only [Bool.false_eq_true, if_false] at hend
  exact ⟨by rw [hend, hout], by simp [visited, hrem, hstep]⟩

/-- The next swap looks for the tick that the search from the settled price finds. -/
theorem findTarget_settled (hp : SameMap p p') (htick : p'.currentTick = sqrtPriceToTick k)
    {next next' : ℤ} {initialized initialized' : Bool} {target' input : ℕ}
    (hsearch : Ensures (searchTick p zeroForOne (sqrtPriceToTick k)) fun found =>
      found = (next, initialized))
    (hfound : findTarget p' zeroForOne limit (swapStart p' input)
      = .ok (next', initialized', target')) :
    next' = next ∧ initialized' = initialized ∧
      target' = swapTarget zeroForOne limit next initialized := by
  obtain ⟨hsearch', rfl⟩ := findTarget_eq_ok.mp hfound
  rw [hp.searchTick, swapStart, htick] at hsearch'
  cases hsearch.of_ok hsearch'
  exact ⟨rfl, rfl, rfl⟩

/-- A round with more input than its target takes crosses the tick there, off the limit. -/
theorem swapStep_reaches {s s' : SwapState} {next : ℤ} {target : ℕ} {goesOn : Bool}
    (found : findTarget p zeroForOne limit s = .ok (next, true, target))
    (hlt : amountConsumed zeroForOne s.sqrtPrice target s.liquidity < s.amountRemaining)
    (hlimit : ¬ atLimit zeroForOne target limit)
    (h : swapStep p zeroForOne limit s = .ok (s', goesOn)) :
    ∃ moved, fullMove p zeroForOne s target = .ok moved ∧
      crossNext p zeroForOne moved next = .ok s' ∧ goesOn = decide (s'.liquidity ≠ 0) := by
  cases swapStep_cases h with
  | stop found' move stops =>
    rw [found] at found'
    cases found'
    obtain ⟨-, -, d0, d1, -, rfl⟩ := fullMove_eq_ok.mp move
    have hspare : s.amountRemaining
        - amountConsumed zeroForOne s.sqrtPrice target s.liquidity ≠ 0 := by omega
    simp [hspare, hlimit] at stops
  | cross found' move _ _ crossing =>
    rw [found] at found'
    cases found'
    exact ⟨_, move, crossing, rfl⟩
  | within found' short _ =>
    rw [found] at found'
    cases found'
    omega

@[simp] theorem amountConsumed_self (price liquidity : ℕ) :
    amountConsumed zeroForOne price price liquidity = 0 := by
  simp [amountConsumed, getAmount0Delta, getAmount1Delta]

@[simp] theorem amountPaid_self (price liquidity : ℕ) :
    amountPaid zeroForOne price price liquidity = 0 := by
  simp [amountPaid, getAmount0Delta, getAmount1Delta]

/-- **A swap that ends at a tick** is taken up by the next one: what the two pay is what the swap
at once pays. -/
theorem EndsAtTick.pays (h : EndsAtTick p zeroForOne limit st) (hp : SameMap p p')
    (hstep : swapStep p zeroForOne limit st = .ok (final, false))
    (hlimit : ¬ atLimit zeroForOne final.sqrtPrice limit) (hl : final.liquidity ≠ 0)
    (hprice : p'.sqrtPriceX96 = final.sqrtPrice) (hliq : p'.liquidity = final.liquidity)
    (htick : p'.currentTick = sqrtPriceToTick final.sqrtPrice) (hticks : p'.ticks = final.ticks)
    (hmore : more ≠ 0) {rounds rounds' : ℕ}
    (hall : swapLoop p zeroForOne limit rounds (st.plus more) = .ok finalAll)
    (hrest : swapLoop p' zeroForOne limit rounds' (swapStart p' more) = .ok finalRest) :
    final.amountOut + finalRest.amountOut = finalAll.amountOut := by
  generalize hstops : false = goesOn at hstep
  cases swapStep_cases hstep with
  | within found short _ =>
    have hends := (h.of_ok found).2.1
    simp only at hends
    omega
  | cross _ _ _ _ _ =>
    rw [eq_comm, decide_eq_false_iff_not, not_not] at hstops
    exact absurd hstops hl
  | @stop next initialized target moved found move stops =>
    obtain ⟨hinit, hends, hsearch⟩ := h.of_ok found
    simp only at hinit hends hsearch
    subst hinit
    obtain ⟨-, -, d0, d1, -, rfl⟩ := fullMove_eq_ok.mp move
    -- the swap at once moves to the tick and crosses it
    have hspare : (st.plus more).amountRemaining ≠ 0 := by
      simp only [SwapState.plus]
      omega
    obtain ⟨left, mid, g, rfl, hstepAll, hall⟩ := swapLoop_round hspare hall
    -- the second swap starts on the tick and crosses it
    obtain ⟨left', mid', g', rfl, hstepRest, hrest⟩ :=
      swapLoop_round (s := swapStart p' more) hmore hrest
    simp only at hlimit hprice hliq htick hticks
    obtain ⟨moved, hmoved, hcross, rfl⟩ := swapStep_reaches (s := st.plus more) found
      (by simp only [SwapState.plus]; omega) hlimit hstepAll
    obtain ⟨next', initialized', target', found'⟩ := swapStep_found hstepRest
    obtain ⟨rfl, rfl, rfl⟩ := findTarget_settled hp htick hsearch found'
    obtain ⟨-, rfl⟩ := findTarget_eq_ok.mp found
    obtain ⟨moved', hmoved', hcross', rfl⟩ := swapStep_reaches (s := swapStart p' more) found'
      (by simp only [swapStart, hprice, amountConsumed_self]; omega) hlimit hstepRest
    obtain ⟨-, -, d0', d1', -, rfl⟩ := fullMove_eq_ok.mp hmoved
    obtain ⟨-, -, e0, e1, -, rfl⟩ := fullMove_eq_ok.mp hmoved'
    -- from there on they look alike
    have halike : Alike mid mid' ∧ mid'.amountOut = 0 ∧
        mid.amountOut = st.amountOut + amountPaid zeroForOne st.sqrtPrice
          (swapTarget zeroForOne limit next' true) st.liquidity := by
      rw [crossNext_eq_ok hcross, crossNext_eq_ok hcross']
      refine ⟨⟨?_, rfl, ?_, rfl, fun t => ?_⟩, ?_, rfl⟩
      · simp only [swapStart, SwapState.plus, hprice, amountConsumed_self, hends]
        omega
      · simp only [swapStart, SwapState.plus, hliq, hticks]
      · simp only [liquidityNet_crossTick, swapStart, SwapState.plus, hticks]
      · simp only [swapStart, hprice, amountPaid_self]
    obtain ⟨halike, hzero, hpaid⟩ := halike
    rw [halike.liquidity] at hrest
    by_cases hdry : mid.liquidity = 0
    · simp only [hdry, ne_eq, not_true_eq_false, decide_false, Bool.false_eq_true, if_false]
        at hall hrest
      rw [hall, hrest, hpaid, hzero, Nat.add_zero]
    · simp only [hdry, ne_eq, not_false_eq_true, decide_true, if_true] at hall hrest
      have hsame := halike.loop hp hall hrest
      rw [hzero, hpaid, Nat.add_zero] at hsame
      rw [← hsame, Nat.add_comm]

/-- **A swap that ends on the way** leaves the price where it was: the second swap trades the same
stretch again. -/
theorem EndsInside.pays (h : EndsInside p zeroForOne limit st more) (hp : SameMap p p')
    (hstep : swapStep p zeroForOne limit st = .ok (final, false)) (hl : final.liquidity ≠ 0)
    (hprice : p'.sqrtPriceX96 = final.sqrtPrice) (hliq : p'.liquidity = final.liquidity)
    (htick : p'.currentTick = sqrtPriceToTick final.sqrtPrice) {input : ℕ}
    (hinput : input ≠ 0)
    (hle : input ≤ st.amountRemaining + more) {rounds rounds' : ℕ}
    (hall : swapLoop p zeroForOne limit rounds (st.plus more) = .ok finalAll)
    (hrest : swapLoop p' zeroForOne limit rounds' (swapStart p' input) = .ok finalRest) :
    final.amountOut = st.amountOut + paidInside zeroForOne st st.amountRemaining ∧
      finalAll.amountOut
        = st.amountOut + paidInside zeroForOne st (st.amountRemaining + more) ∧
      finalRest.amountOut = paidInside zeroForOne st input ∧
      (visited p zeroForOne limit rounds (st.plus more)).length = 1 ∧
      (visited p' zeroForOne limit rounds' (swapStart p' input)).length = 1 := by
  generalize hstops : false = goesOn at hstep
  cases swapStep_cases hstep with
  | stop found move _ =>
    have hle := (fullMove_eq_ok.mp move).2.1
    have hshort := (h.of_ok found).1
    simp only at hshort
    omega
  | cross found move _ _ crossing =>
    have hle := (fullMove_eq_ok.mp move).2.1
    have hshort := (h.of_ok found).1
    simp only at hshort
    omega
  | @within next initialized target _ found short move =>
    obtain ⟨hshort, hsearch⟩ := h.of_ok found
    simp only at hshort hsearch
    obtain ⟨_, _, -, _, _, -, rfl⟩ := partialMove_eq_ok.mp move
    have hl : st.liquidity ≠ 0 := hl
    have hfinal := (swapStep_inside hl found short hstep).1
    -- the swap at once
    have hspare : (st.plus more).amountRemaining ≠ 0 := by
      simp only [SwapState.plus]
      omega
    obtain ⟨hallOut, hallCount⟩ := swapLoop_inside (s := st.plus more) hl hspare found hshort hall
    -- the second swap
    obtain ⟨_, _, _, rfl, hstep', -⟩ := swapLoop_round (s := swapStart p' input) hinput hrest
    obtain ⟨next', initialized', target', found'⟩ := swapStep_found hstep'
    obtain ⟨rfl, rfl, rfl⟩ := findTarget_settled hp htick hsearch found'
    obtain ⟨-, rfl⟩ := findTarget_eq_ok.mp found
    have hshort' : input < amountConsumed zeroForOne p'.sqrtPriceX96
        (swapTarget zeroForOne limit next' initialized') p'.liquidity := by
      rw [hprice, hliq]
      exact lt_of_le_of_lt hle hshort
    obtain ⟨hrestOut, hrestCount⟩ := swapLoop_inside (s := swapStart p' input)
      (by rw [swapStart, hliq]; exact hl) hinput found' hshort' hrest
    refine ⟨hfinal, hallOut, ?_, hallCount, hrestCount⟩
    rw [hrestOut, paidInside, paidInside]
    simp only [swapStart, hprice, hliq, Nat.zero_add]

end LastRound

/-! ### The whole splitting -/

/-- Taking the fee of two amounts together leaves at least as much as of one, and at most one less
than of each. -/
theorem afterFee_add {a b : ℕ} (hfee : p.feeTier ≤ feeDenominator) :
    afterFee p a + rest p a b = afterFee p (a + b) ∧ afterFee p b ≤ rest p a b + 1 := by
  have hb : b * p.feeTier ≤ b * feeDenominator := Nat.mul_le_mul_left _ hfee
  have ha : a * p.feeTier ≤ a * feeDenominator := Nat.mul_le_mul_left _ hfee
  simp only [rest, afterFee, Nat.add_mul, feeDenominator] at ha hb ⊢
  omega

end Swyft.ClPool
