import Swyft.ClPool.Splitting

/-!
# The road ahead of a swap

Which stretches of the price range a swap passes does not depend on its input: the ticks it looks
for and the liquidity it finds there are those of the pool it starts from. The road is that list of
stretches; the input only decides how far along the road the swap gets.

## Main definitions

* `Leg` — a stretch of the road: two prices and the liquidity between them
* `road` — the legs ahead of a swap
* `endPrice` — where on the road an input runs out

## Main results

* `searchTick_ahead` — a tick that is found is initialised and lies ahead
* `swapLoop_endPrice` — the loop ends where the input runs out
-/

namespace Swyft.ClPool

open Checked

variable {p : Pool} {zeroForOne : Bool} {limit : ℕ}

/-- A stretch of the road of a swap, and the liquidity on it. -/
structure Leg where
  price : ℕ
  target : ℕ
  liquidity : ℕ
  deriving DecidableEq

/-- The input that takes a swap to the leg's target. -/
def Leg.cost (zeroForOne : Bool) (leg : Leg) : ℕ :=
  amountConsumed zeroForOne leg.price leg.target leg.liquidity

/-- What the legs cost together. -/
def costs (zeroForOne : Bool) (legs : List Leg) : ℕ := (legs.map (Leg.cost zeroForOne)).sum

/-- The liquidity beyond a tick, as a swap works it out when it crosses the tick. -/
def liquidityBeyond (p : Pool) (zeroForOne : Bool) (liquidity : ℕ) (tick : ℤ) : ℕ :=
  if zeroForOne then satSub liquidity (netAt p tick).natAbs
  else satAdd 128 liquidity (netAt p tick).natAbs

/-- The legs from a price on. The road ends at the limit, where no tick is left, and where the
liquidity is used up. -/
def roadFrom (p : Pool) (zeroForOne : Bool) (limit : ℕ) :
    (rounds : ℕ) → (price liquidity : ℕ) → (tick : ℤ) → List Leg
  | 0, _, _, _ => []
  | rounds + 1, price, liquidity, tick =>
    match searchTick p zeroForOne tick with
    | .error _ => []
    | .ok (next, initialized) =>
      let target := swapTarget zeroForOne limit next initialized
      let beyond := liquidityBeyond p zeroForOne liquidity next
      ⟨price, target, liquidity⟩ ::
        if initialized = false ∨ atLimit zeroForOne target limit ∨ beyond = 0 then []
        else roadFrom p zeroForOne limit rounds target beyond next

/-- The road ahead of a swap. -/
def road (p : Pool) (zeroForOne : Bool) (limit : ℕ) : List Leg :=
  roadFrom p zeroForOne limit maxSwapIterations p.sqrtPriceX96 p.liquidity p.currentTick

theorem costs_cons (leg : Leg) (legs : List Leg) :
    costs zeroForOne (leg :: legs) = leg.cost zeroForOne + costs zeroForOne legs := by
  simp only [costs, List.map_cons, List.sum_cons]

/-! ### The legs, one by one -/

section Legs

variable {rounds price liquidity : ℕ} {tick next : ℤ} {initialized : Bool}

theorem roadFrom_found (h : searchTick p zeroForOne tick = .ok (next, initialized)) :
    roadFrom p zeroForOne limit (rounds + 1) price liquidity tick =
      ⟨price, swapTarget zeroForOne limit next initialized, liquidity⟩ ::
        if initialized = false
            ∨ atLimit zeroForOne (swapTarget zeroForOne limit next initialized) limit
            ∨ liquidityBeyond p zeroForOne liquidity next = 0 then []
        else roadFrom p zeroForOne limit rounds (swapTarget zeroForOne limit next initialized)
          (liquidityBeyond p zeroForOne liquidity next) next := by
  simp only [roadFrom, h]

theorem roadFrom_error {e : Trap} (h : searchTick p zeroForOne tick = .error e) :
    roadFrom p zeroForOne limit (rounds + 1) price liquidity tick = [] := by
  simp only [roadFrom, h]

/-- **A tick that is found is initialised and lies ahead.** -/
theorem searchTick_ahead (h : TicksAgree p) (hs : 0 < p.tickSpacing)
    (hfound : searchTick p zeroForOne tick = .ok (next, true)) :
    Initialised p next ∧ AheadOf zeroForOne tick next := by
  simp only [searchTick, bind_eq_ok] at hfound
  obtain ⟨start, hstart, hfound⟩ := hfound
  exact h.found_ahead hs hstart hfound

/-- Short of the limit, the target is the tick's price. -/
theorem swapTarget_of_inside
    (h : ¬ atLimit zeroForOne (swapTarget zeroForOne limit next true) limit) :
    swapTarget zeroForOne limit next true = tickToSqrtPrice next := by
  cases zeroForOne <;>
  · simp only [swapTarget, atLimit, if_true, Bool.false_eq_true, true_and, false_and, if_false,
      not_true, not_false_eq_true, or_false, false_or] at h ⊢
    split_ifs at h ⊢ <;> first | rfl | omega

end Legs

/-! ### The loop along the road -/

/-- A loop state's tick table has the pool's net liquidities. -/
def SameNets (p : Pool) (st : SwapState) : Prop :=
  ∀ t, (readTick st.ticks t).liquidityNet = netAt p t

theorem SameNets.start (p : Pool) (amount : ℕ) : SameNets p (swapStart p amount) := fun _ => rfl

/-- A crossing leaves the loop with the liquidity beyond the tick. -/
theorem SameNets.cross {st crossed : SwapState} {next : ℤ} (h : SameNets p st)
    (hcross : crossNext p zeroForOne st next = .ok crossed) :
    SameNets p crossed ∧ crossed.sqrtPrice = st.sqrtPrice
      ∧ crossed.liquidity = liquidityBeyond p zeroForOne st.liquidity next
      ∧ crossed.currentTick = next ∧ crossed.amountRemaining = st.amountRemaining := by
  rw [crossNext_eq_ok hcross]
  refine ⟨fun t => ?_, rfl, ?_, rfl, rfl⟩
  · rw [liquidityNet_crossTick]
    exact h t
  · simp only [liquidityBeyond, h next]

/-- Where an input runs out: at the start of a leg it does not pay for, or at the end of the last
one it pays for. -/
def endPrice (zeroForOne : Bool) (price amount : ℕ) : List Leg → ℕ
  | [] => price
  | leg :: legs =>
    if leg.cost zeroForOne < amount then
      endPrice zeroForOne leg.target (amount - leg.cost zeroForOne) legs
    else if leg.cost zeroForOne = amount then leg.target
    else price

/-- The legs ahead of a loop state. -/
def roadAhead (p : Pool) (zeroForOne : Bool) (limit rounds : ℕ) (st : SwapState) : List Leg :=
  roadFrom p zeroForOne limit rounds st.sqrtPrice st.liquidity st.currentTick

section EndPrice

variable {leg : Leg} {legs : List Leg} {price amount : ℕ}

theorem endPrice_passed (h : leg.cost zeroForOne < amount) :
    endPrice zeroForOne price amount (leg :: legs)
      = endPrice zeroForOne leg.target (amount - leg.cost zeroForOne) legs :=
  if_pos h

theorem endPrice_reached (h : leg.cost zeroForOne = amount) :
    endPrice zeroForOne price amount (leg :: legs) = leg.target := by
  rw [endPrice, if_neg h.not_lt, if_pos h]

theorem endPrice_short (h : amount < leg.cost zeroForOne) :
    endPrice zeroForOne price amount (leg :: legs) = price := by
  rw [endPrice, if_neg h.not_gt, if_neg h.ne']

theorem endPrice_last (h : leg.cost zeroForOne ≤ amount) :
    endPrice zeroForOne price amount [leg] = leg.target := by
  rcases h.lt_or_eq with hlt | heq
  · exact endPrice_passed hlt
  · exact endPrice_reached heq

end EndPrice

/-- **The loop ends where the input runs out on the road.** -/
theorem swapLoop_endPrice : ∀ {rounds : ℕ} {st final : SwapState}, SameNets p st →
    st.amountRemaining ≠ 0 → swapLoop p zeroForOne limit rounds st = .ok final →
    final.sqrtPrice = endPrice zeroForOne st.sqrtPrice st.amountRemaining
      (roadAhead p zeroForOne limit rounds st)
  | rounds, st, final, hnets, hrem, h => by
    obtain ⟨left, st', goesOn, rfl, hstep, hrest⟩ := swapLoop_round hrem h
    rw [roadAhead]
    cases swapStep_cases hstep with
    | stop found move stops =>
      obtain rfl : final = _ := hrest
      obtain ⟨hsearch, rfl⟩ := findTarget_eq_ok.mp found
      obtain ⟨-, hle, d0, d1, -, rfl⟩ := fullMove_eq_ok.mp move
      rw [roadFrom_found hsearch]
      rcases stops with hspent | hlimit | hlast
      · rw [endPrice_reached]
        exact le_antisymm hle (Nat.sub_eq_zero_iff_le.mp hspent)
      · rw [if_pos (.inr (.inl hlimit))]
        rw [endPrice_last]
        exact hle
      · rw [if_pos (.inl hlast)]
        rw [endPrice_last]
        exact hle
    | cross found move spare inside crossing =>
      obtain ⟨hsearch, rfl⟩ := findTarget_eq_ok.mp found
      obtain ⟨-, hle, d0, d1, -, rfl⟩ := fullMove_eq_ok.mp move
      obtain ⟨hnets', hprice, hliquidity, htick, hleft⟩ := SameNets.cross (by exact hnets) crossing
      rw [roadFrom_found hsearch]
      by_cases hend : st'.liquidity = 0
      · rw [decide_eq_false (by simpa using hend)] at hrest
        obtain rfl : final = st' := hrest
        rw [if_pos (.inr (.inr (hliquidity ▸ hend))), hprice]
        rw [endPrice_last]
        exact hle
      · rw [decide_eq_true hend] at hrest
        have hloop := swapLoop_endPrice hnets' (by rw [hleft]; exact spare) hrest
        rw [hloop, roadAhead, hprice, hliquidity, htick, hleft, if_neg]
        · rw [endPrice_passed]
          · rfl
          · exact Nat.sub_ne_zero_iff_lt.mp spare
        · rintro (hfalse | hlimit | hzero)
          · cases hfalse
          · exact inside hlimit
          · exact hend (hliquidity.trans hzero)
    | within found short move =>
      obtain rfl : final = st' := hrest
      obtain ⟨hsearch, rfl⟩ := findTarget_eq_ok.mp found
      obtain ⟨next, -, -, d0, d1, -, rfl⟩ := partialMove_eq_ok.mp move
      rw [roadFrom_found hsearch]
      rw [endPrice_short]
      exact short

end Swyft.ClPool
