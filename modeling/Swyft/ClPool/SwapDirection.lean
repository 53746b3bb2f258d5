import Swyft.ClPool.Road
import Swyft.ClPool.TickPrices

/-!
# Which way a swap moves the price

A swap is meant to move the price in its own direction and to stop at the caller's limit. The loop
heads for the next tick ahead, or for the caller's limit if that comes first; which of the two comes
first is worked out as if the limit lay ahead of the price. A limit on the wrong side is always
"first", and the price jumps back to it.

With a limit ahead the order is kept as long as the ticks ahead are where their prices say. Two
prices have no such ticks: zero, whose tick is taken to be 0, and anything above the price of the
last tick.

## Main definitions

* `Onward` — not before, in the direction of a swap
* `KeepsOrder` — the swaps that respect direction and limit

## Main results

* `sqrtPriceToTick_faces` — the ticks ahead of a price's tick have prices ahead of it
* `swap_respects_limit_iff` — a swap respects direction and limit exactly if it is one of them
-/

namespace Swyft.ClPool

open Checked

variable {p : Pool} {zeroForOne : Bool} {limit : ℕ}

/-! ### Order -/

/-- The second price is not before the first in the direction of a swap. -/
def Onward (zeroForOne : Bool) (a b : ℕ) : Prop := if zeroForOne then b ≤ a else a ≤ b

instance decidableOnward (zeroForOne : Bool) (a b : ℕ) : Decidable (Onward zeroForOne a b) := by
  unfold Onward
  infer_instance

theorem Onward.refl (a : ℕ) : Onward zeroForOne a a := by
  cases zeroForOne <;> simp [Onward]

theorem Onward.trans {a b c : ℕ} (h : Onward zeroForOne a b) (h' : Onward zeroForOne b c) :
    Onward zeroForOne a c := by
  cases zeroForOne <;> simp only [Onward, if_true, Bool.false_eq_true, if_false] at * <;> omega

theorem Onward.antisymm {a b : ℕ} (h : Onward zeroForOne a b) (h' : Onward zeroForOne b a) :
    a = b := by
  cases zeroForOne <;> simp only [Onward, if_true, Bool.false_eq_true, if_false] at * <;> omega

/-- The price a swap heads for when no tick is left. -/
def lastPrice (zeroForOne : Bool) : ℕ := tickToSqrtPrice (if zeroForOne then minTick else maxTick)

/-- The ticks ahead of `tick` have prices ahead of `price`. -/
def Faces (zeroForOne : Bool) (price : ℕ) (tick : ℤ) : Prop :=
  ∀ t, AheadOf zeroForOne tick t → t ≤ maxTick → Onward zeroForOne price (tickToSqrtPrice t)

theorem onward_of_ahead {s t : ℤ} (h : AheadOf zeroForOne s t) :
    Onward zeroForOne (tickToSqrtPrice s) (tickToSqrtPrice t) := by
  cases zeroForOne <;>
    simp only [Onward, AheadOf, if_true, Bool.false_eq_true, if_false] at h ⊢ <;>
    exact tickToSqrtPrice_mono h.le

theorem Faces.tick (t : ℤ) : Faces zeroForOne (tickToSqrtPrice t) t :=
  fun _ hahead _ => onward_of_ahead hahead

/-! ### The tick of a price -/

/-- Below `Q96` the tick is not cut off. -/
theorem scaledTick_of_le {diff : ℕ} (h : diff ≤ Q96) : scaledTick diff = diff * 20000 / Q96 := by
  rw [scaledTick_eq, Q96] at *
  omega

/-- A positive price is at or above the price of the tick under its own. -/
theorem price_under {price : ℕ} (hpos : 0 < price) :
    tickToSqrtPrice (sqrtPriceToTick price - 1) ≤ price := by
  rw [sqrtPriceToTick, if_neg hpos.ne']
  split
  case isTrue hge =>
    have hn := scaledTick_eq (price - Q96)
    rcases Nat.eq_zero_or_pos (scaledTick (price - Q96)) with h0 | hpos
    · rw [h0]
      exact le_trans (by decide) hge
    · have hcast :
          (scaledTick (price - Q96) : ℤ) - 1 = ((scaledTick (price - Q96) - 1 : ℕ) : ℤ) := by
        omega
      rw [hcast, tickToSqrtPrice_nat]
      rw [Q96] at *
      omega
  case isFalse hlt =>
    have hn := scaledTick_of_le (Nat.sub_le Q96 price)
    have hcast :
        -(scaledTick (Q96 - price) : ℤ) - 1 = -((scaledTick (Q96 - price) + 1 : ℕ) : ℤ) := by
      push_cast
      ring
    rw [hcast, tickToSqrtPrice_neg]
    rw [Q96] at *
    omega

/-- A price is at or below the price of the tick above its own, as far as there is one. -/
theorem price_above {price : ℕ} (hmax : sqrtPriceToTick price < maxTick) :
    price ≤ tickToSqrtPrice (sqrtPriceToTick price + 1) := by
  rw [sqrtPriceToTick] at hmax ⊢
  split at hmax
  case isTrue h0 =>
    rw [if_pos h0, h0]
    exact Nat.zero_le _
  case isFalse h0 =>
    rw [if_neg h0]
    split at hmax
    case isTrue hge =>
      have hn := scaledTick_eq (price - Q96)
      rw [if_pos hge, show (scaledTick (price - Q96) : ℤ) + 1
        = ((scaledTick (price - Q96) + 1 : ℕ) : ℤ) by push_cast; ring, tickToSqrtPrice_nat]
      rw [maxTick] at hmax
      rw [Q96] at *
      omega
    case isFalse hlt =>
      have hn := scaledTick_of_le (Nat.sub_le Q96 price)
      rw [if_neg hlt]
      rcases Nat.eq_zero_or_pos (scaledTick (Q96 - price)) with hz | hpos
      · rw [hz]
        exact le_trans (not_le.mp hlt).le (by decide)
      · have hcast : -(scaledTick (Q96 - price) : ℤ) + 1
            = -((scaledTick (Q96 - price) - 1 : ℕ) : ℤ) := by omega
        rw [hcast, tickToSqrtPrice_neg]
        rw [Q96] at *
        omega

/-- **The ticks ahead of a price's tick have prices ahead of it**, down from any price but zero. -/
theorem sqrtPriceToTick_faces {price : ℕ} (h : zeroForOne = true → 0 < price) :
    Faces zeroForOne price (sqrtPriceToTick price) := by
  intro t hahead ht
  cases zeroForOne with
  | true =>
    simp only [Onward, AheadOf, if_true] at hahead ⊢
    exact le_trans (tickToSqrtPrice_mono (by omega)) (price_under (h rfl))
  | false =>
    simp only [Onward, AheadOf, Bool.false_eq_true, if_false] at hahead ⊢
    exact le_trans (price_above (by omega)) (tickToSqrtPrice_mono (by omega))

/-! ### Along the road -/

section Targets

variable {price : ℕ} {tick next : ℤ} {initialized : Bool}

/-- A target lies ahead when the limit and the tick, or the last price, do, and never beyond the
limit. -/
theorem swapTarget_onward (hlimit : Onward zeroForOne price limit)
    (htick : initialized = true → Onward zeroForOne price (tickToSqrtPrice next))
    (hlast : initialized = false → Onward zeroForOne price (lastPrice zeroForOne)) :
    Onward zeroForOne price (swapTarget zeroForOne limit next initialized) ∧
      Onward zeroForOne (swapTarget zeroForOne limit next initialized) limit := by
  cases zeroForOne <;> cases initialized <;>
  · simp only [Onward, lastPrice, if_true, Bool.false_eq_true, if_false, forall_const] at *
    simp only [swapTarget, if_true, Bool.false_eq_true, if_false, true_and, false_and, not_true,
      not_false_eq_true]
    split_ifs <;> omega

/-- What the search finds is a usable tick ahead. -/
theorem searchTick_valid (h : TicksAgree p) (hs : 0 < p.tickSpacing)
    (hwf : ∀ i q, p.positions.get? i = some q → q.Wf p.tickSpacing)
    (hfound : searchTick p zeroForOne tick = .ok (next, true)) :
    AheadOf zeroForOne tick next ∧ minTick ≤ next ∧ next ≤ maxTick := by
  obtain ⟨hinit, hahead⟩ := searchTick_ahead h hs hfound
  obtain ⟨hlow, hhigh, -⟩ := h.initialised_valid hwf hinit
  exact ⟨hahead, hlow, hhigh⟩

theorem onward_lastPrice (hlow : minTick ≤ next) (hhigh : next ≤ maxTick) :
    Onward zeroForOne (tickToSqrtPrice next) (lastPrice zeroForOne) := by
  cases zeroForOne <;>
    simp only [Onward, lastPrice, if_true, Bool.false_eq_true, if_false]
  · exact tickToSqrtPrice_mono hhigh
  · exact tickToSqrtPrice_mono hlow

/-- **An input runs out between the price and the limit**, when both the limit and the ticks lie
ahead. -/
theorem endPrice_between (h : TicksAgree p) (hs : 0 < p.tickSpacing)
    (hwf : ∀ i q, p.positions.get? i = some q → q.Wf p.tickSpacing) :
    ∀ {rounds price liquidity amount : ℕ} {tick : ℤ}, Onward zeroForOne price limit →
      Onward zeroForOne price (lastPrice zeroForOne) → Faces zeroForOne price tick →
      Onward zeroForOne price (endPrice zeroForOne price amount
          (roadFrom p zeroForOne limit rounds price liquidity tick)) ∧
        Onward zeroForOne (endPrice zeroForOne price amount
          (roadFrom p zeroForOne limit rounds price liquidity tick)) limit
  | 0, price, _, _, _, hlimit, _, _ => ⟨.refl _, hlimit⟩
  | rounds + 1, price, liquidity, amount, tick, hlimit, hlast, hfaces => by
    cases hsearch : searchTick p zeroForOne tick with
    | error e =>
      rw [roadFrom_error hsearch]
      exact ⟨.refl _, hlimit⟩
    | ok found =>
      obtain ⟨next, initialized⟩ := found
      have htick : initialized = true → Onward zeroForOne price (tickToSqrtPrice next) := by
        rintro rfl
        obtain ⟨hahead, -, hhigh⟩ := searchTick_valid h hs hwf hsearch
        exact hfaces next hahead hhigh
      have htarget := swapTarget_onward hlimit htick fun _ => hlast
      rw [roadFrom_found hsearch]
      set target := swapTarget zeroForOne limit next initialized with htargetdef
      set leg : Leg := ⟨price, target, liquidity⟩ with hleg
      rcases lt_trichotomy (leg.cost zeroForOne) amount with hlt | heq | hgt
      · rw [endPrice_passed hlt]
        split
        case isTrue => exact htarget
        case isFalse hgoes =>
          push Not at hgoes
          obtain ⟨hinit, hinside, -⟩ := hgoes
          obtain rfl : initialized = true := by simpa using hinit
          obtain ⟨-, hlow, hhigh⟩ := searchTick_valid h hs hwf hsearch
          have hprice : target = tickToSqrtPrice next := swapTarget_of_inside hinside
          refine And.imp_left htarget.1.trans (endPrice_between h hs hwf htarget.2 ?_ ?_)
          · rw [hprice]
            exact onward_lastPrice hlow hhigh
          · rw [hprice]
            exact .tick next
      · rw [endPrice_reached heq]
        exact htarget
      · rw [endPrice_short hgt]
        exact ⟨.refl _, hlimit⟩

end Targets

/-! ### Back to the price it came from -/

/-- An input pays for the whole road, and the road leads back to `price`. -/
def LeadsBack (zeroForOne : Bool) (price amount : ℕ) (legs : List Leg) : Prop :=
  ∃ before leg, legs = before ++ [leg] ∧ costs zeroForOne before < amount ∧
    costs zeroForOne before + leg.cost zeroForOne ≤ amount ∧ leg.target = price

theorem leadsBack_nil {price amount : ℕ} : ¬ LeadsBack zeroForOne price amount [] := by
  rintro ⟨before, leg, hlegs, -⟩
  simp at hlegs

theorem leadsBack_one {leg : Leg} {price amount : ℕ} :
    LeadsBack zeroForOne price amount [leg] ↔
      0 < amount ∧ leg.cost zeroForOne ≤ amount ∧ leg.target = price := by
  constructor
  · rintro ⟨before, last, hlegs, hbefore, hcost, htarget⟩
    obtain ⟨rfl, rfl⟩ : before = [] ∧ last = leg := by
      cases before with
      | nil => simpa [eq_comm] using hlegs
      | cons _ _ => simp at hlegs
    exact ⟨hbefore, by simpa [costs] using hcost, htarget⟩
  · rintro ⟨hpos, hcost, htarget⟩
    exact ⟨[], leg, rfl, hpos, by simpa [costs] using hcost, htarget⟩

theorem leadsBack_cons {leg leg' : Leg} {legs : List Leg} {price amount : ℕ} :
    LeadsBack zeroForOne price amount (leg :: leg' :: legs) ↔
      leg.cost zeroForOne < amount ∧
        LeadsBack zeroForOne price (amount - leg.cost zeroForOne) (leg' :: legs) := by
  constructor
  · rintro ⟨before, last, hlegs, hbefore, hcost, htarget⟩
    cases before with
    | nil => simp at hlegs
    | cons first before =>
      simp only [List.cons_append, List.cons.injEq] at hlegs
      obtain ⟨rfl, hlegs⟩ := hlegs
      rw [costs_cons] at hbefore hcost
      exact ⟨by omega, before, last, hlegs, by omega, by omega, htarget⟩
  · rintro ⟨hlt, before, last, hlegs, hbefore, hcost, htarget⟩
    refine ⟨leg :: before, last, by rw [hlegs]; rfl, ?_, ?_, htarget⟩
    · rw [costs_cons]
      omega
    · rw [costs_cons]
      omega

/-- When an input runs out at `price`, on a road that passes it at most at its ends. -/
theorem endPrice_eq_iff {price : ℕ} : ∀ {legs : List Leg} {start amount : ℕ}, 0 < amount →
    (∀ leg ∈ legs.dropLast, leg.target ≠ price) →
    (endPrice zeroForOne start amount legs = price ↔
      (start = price ∧ ∀ leg ∈ legs.head?, amount < leg.cost zeroForOne) ∨
        LeadsBack zeroForOne price amount legs)
  | [], start, amount, _, _ => by
    simp [endPrice, leadsBack_nil]
  | [leg], start, amount, hpos, _ => by
    simp only [leadsBack_one, List.head?_cons, Option.mem_some, forall_eq']
    rcases lt_or_ge amount (leg.cost zeroForOne) with hshort | hpaid
    · rw [endPrice_short hshort]
      constructor
      · exact fun h => .inl ⟨h, hshort⟩
      · rintro (⟨h, -⟩ | ⟨-, hcost, -⟩)
        · exact h
        · omega
    · rw [endPrice_last hpaid]
      constructor
      · exact fun h => .inr ⟨hpos, hpaid, h⟩
      · rintro (⟨-, hcost⟩ | ⟨-, -, h⟩)
        · omega
        · exact h
  | leg :: leg' :: legs, start, amount, hpos, hinner => by
    simp only [leadsBack_cons, List.head?_cons, Option.mem_some, forall_eq']
    have hdrop : (leg :: leg' :: legs).dropLast = leg :: (leg' :: legs).dropLast := rfl
    rw [hdrop, List.forall_mem_cons] at hinner
    rcases lt_trichotomy (leg.cost zeroForOne) amount with hlt | heq | hgt
    · rw [endPrice_passed hlt, endPrice_eq_iff (by omega) hinner.2]
      constructor
      · rintro (⟨h, -⟩ | h)
        · exact absurd h hinner.1
        · exact .inr ⟨hlt, h⟩
      · rintro (⟨-, h⟩ | ⟨-, h⟩)
        · omega
        · exact .inr h
    · rw [endPrice_reached heq]
      refine iff_of_false hinner.1 ?_
      rintro (⟨-, h⟩ | ⟨h, -⟩) <;> omega
    · rw [endPrice_short hgt]
      constructor
      · exact fun h => .inl ⟨h, hgt⟩
      · rintro (⟨h, -⟩ | ⟨h, -⟩)
        · exact h
        · omega

/-- No leg but the last ends at the limit. -/
theorem roadFrom_inner : ∀ {rounds price liquidity : ℕ} {tick : ℤ},
    ∀ leg ∈ (roadFrom p zeroForOne limit rounds price liquidity tick).dropLast,
      ¬ atLimit zeroForOne leg.target limit
  | 0, _, _, _ => by
    intro leg hleg
    simp [roadFrom] at hleg
  | rounds + 1, price, liquidity, tick => by
    intro leg hleg
    cases hsearch : searchTick p zeroForOne tick with
    | error e =>
      rw [roadFrom_error hsearch] at hleg
      simp at hleg
    | ok found =>
      obtain ⟨next, initialized⟩ := found
      rw [roadFrom_found hsearch] at hleg
      split at hleg
      case isTrue => simp at hleg
      case isFalse hgoes =>
        push Not at hgoes
        generalize hrest : roadFrom p zeroForOne limit rounds _ _ _ = rest at hleg
        cases rest with
        | nil => simp at hleg
        | cons leg' legs =>
          rw [List.dropLast_cons_cons, List.mem_cons] at hleg
          rcases hleg with rfl | hleg
          · exact hgoes.2.1
          · exact roadFrom_inner leg (hrest ▸ hleg)

/-! ### A swap -/

/-- No tick lies ahead of the price as its own tick has it: at price zero on the way down, beyond
the last tick's price on the way up. -/
def OffRange (zeroForOne : Bool) (price : ℕ) : Prop :=
  if zeroForOne then price = 0 else lastPrice false < price

instance decidableOffRange (zeroForOne : Bool) (price : ℕ) :
    Decidable (OffRange zeroForOne price) := by
  unfold OffRange
  infer_instance

/-- The swaps that respect direction and limit: the limit lies ahead, and from a price off the range
the input does not pay for the first leg, or pays for a road that leads back to that price. -/
structure KeepsOrder (p : Pool) (zeroForOne : Bool) (net limit : ℕ) : Prop where
  ahead : Onward zeroForOne p.sqrtPriceX96 limit
  returns : OffRange zeroForOne p.sqrtPriceX96 →
    (∀ leg ∈ (road p zeroForOne limit).head?, net < leg.cost zeroForOne) ∨
      LeadsBack zeroForOne p.sqrtPriceX96 net (road p zeroForOne limit)

/-- Beyond the last tick's price the road leads back to that price at once. -/
theorem road_offRange_up {w : World} (hw : Reachable w)
    (hoff : OffRange false w.pool.sqrtPriceX96) (hahead : w.pool.sqrtPriceX96 ≤ limit) :
    road w.pool false limit = [] ∨
      ∃ leg, road w.pool false limit = [leg] ∧ leg.target < w.pool.sqrtPriceX96 := by
  simp only [OffRange, Bool.false_eq_true, if_false] at hoff
  have htick : maxTick ≤ w.pool.currentTick := by
    by_contra hlt
    rw [hw.wf.tick] at hlt
    have hfaces : Faces false w.pool.sqrtPriceX96 (sqrtPriceToTick w.pool.sqrtPriceX96) :=
      sqrtPriceToTick_faces nofun
    have hprice := hfaces maxTick (not_le.mp hlt) le_rfl
    simp only [Onward, Bool.false_eq_true, if_false] at hprice
    exact absurd hoff (not_lt.mpr hprice)
  rw [road, maxSwapIterations]
  cases hsearch : searchTick w.pool false w.pool.currentTick with
  | error e => exact .inl (roadFrom_error hsearch)
  | ok found =>
    obtain ⟨next, initialized⟩ := found
    cases initialized with
    | true =>
      obtain ⟨hnext, -, hhigh⟩ :=
        searchTick_valid hw.ticksAgree hw.wf.spacing_pos hw.wf.positions hsearch
      simp only [AheadOf, Bool.false_eq_true, if_false] at hnext
      omega
    | false =>
      refine .inr ⟨_, (roadFrom_found hsearch).trans (by rw [if_pos (.inl rfl)]), ?_⟩
      have hlast : ¬ limit ≤ lastPrice false := not_le.mpr (lt_of_lt_of_le hoff hahead)
      simp only [lastPrice, Bool.false_eq_true, if_false] at hoff hlast
      simp only [swapTarget, Bool.false_eq_true, if_false, false_and, not_false_eq_true, true_and,
        if_neg hlast]
      exact hoff

/-- From a price off the range, a swap that respects its direction ends at that price. -/
theorem endPrice_offRange {w : World} (hw : Reachable w) {net : ℕ}
    (hoff : OffRange zeroForOne w.pool.sqrtPriceX96)
    (hahead : Onward zeroForOne w.pool.sqrtPriceX96 limit)
    (h : Onward zeroForOne w.pool.sqrtPriceX96
      (endPrice zeroForOne w.pool.sqrtPriceX96 net (road w.pool zeroForOne limit))) :
    endPrice zeroForOne w.pool.sqrtPriceX96 net (road w.pool zeroForOne limit)
      = w.pool.sqrtPriceX96 := by
  cases zeroForOne with
  | true =>
    simp only [OffRange, Onward, if_true] at hoff h
    omega
  | false =>
    simp only [Onward, Bool.false_eq_true, if_false] at h hahead
    rcases road_offRange_up hw hoff hahead with hnone | ⟨leg, hone, htarget⟩
    · rw [hnone, endPrice]
    · rw [hone] at h ⊢
      rcases lt_or_ge net (leg.cost false) with hshort | hpaid
      · exact endPrice_short hshort
      · rw [endPrice_last hpaid] at h
        omega

/-- From a price off the range, the road passes that price at most at its ends. -/
theorem road_offRange_inner {w : World} (hw : Reachable w)
    (hoff : OffRange zeroForOne w.pool.sqrtPriceX96)
    (hahead : Onward zeroForOne w.pool.sqrtPriceX96 limit) :
    ∀ leg ∈ (road w.pool zeroForOne limit).dropLast, leg.target ≠ w.pool.sqrtPriceX96 := by
  cases zeroForOne with
  | true =>
    simp only [OffRange, Onward, if_true] at hoff hahead
    intro leg hleg htarget
    refine roadFrom_inner leg hleg (.inl ⟨rfl, ?_⟩)
    omega
  | false =>
    simp only [Onward, Bool.false_eq_true, if_false] at hahead
    rcases road_offRange_up hw hoff hahead with hnone | ⟨leg, hone, -⟩
    · rw [hnone]
      exact List.forall_mem_nil _
    · rw [hone]
      exact List.forall_mem_nil _

/-- **A swap respects direction and limit exactly if it keeps the order**: in every reachable state,
in both directions, for every input and every limit. -/
theorem swap_respects_limit_iff {w w' : World} (hw : Reachable w) {sender : Address}
    {amountIn : ℕ} {delta0 delta1 : ℤ} {outcome : SwapOutcome}
    (h : swap w sender zeroForOne amountIn limit = .ok (w', delta0, delta1, outcome)) :
    (Onward zeroForOne w.pool.sqrtPriceX96 w'.pool.sqrtPriceX96 ∧
        Onward zeroForOne w'.pool.sqrtPriceX96 limit) ↔
      KeepsOrder w.pool zeroForOne (afterFee w.pool amountIn) limit := by
  obtain ⟨hswapped, -⟩ := swap_eq_ok.mp h
  obtain ⟨net, hnet, hpos, -, hloop, -⟩ := computeSwap_eq_ok.mp hswapped.computed
  obtain ⟨fg0, fg1, -, -, hpool⟩ := settlePool_eq_ok.mp hswapped.settled
  obtain rfl := netInput_eq hnet
  set net := afterFee w.pool amountIn
  have hprice : w'.pool.sqrtPriceX96
      = endPrice zeroForOne w.pool.sqrtPriceX96 net (road w.pool zeroForOne limit) := by
    rw [hpool]
    exact swapLoop_endPrice (.start w.pool net) hpos hloop
  rw [hprice]
  constructor
  · rintro ⟨hdirection, hlimit⟩
    have hahead := hdirection.trans hlimit
    refine ⟨hahead, fun hoff => ?_⟩
    have hend := endPrice_offRange hw hoff hahead hdirection
    rcases (endPrice_eq_iff (Nat.pos_of_ne_zero hpos) (road_offRange_inner hw hoff hahead)).mp hend
      with ⟨-, hshort⟩ | hback
    · exact .inl hshort
    · exact .inr hback
  · rintro ⟨hahead, hreturns⟩
    by_cases hoff : OffRange zeroForOne w.pool.sqrtPriceX96
    · have hend : endPrice zeroForOne w.pool.sqrtPriceX96 net (road w.pool zeroForOne limit)
          = w.pool.sqrtPriceX96 := by
        refine (endPrice_eq_iff (Nat.pos_of_ne_zero hpos)
          (road_offRange_inner hw hoff hahead)).mpr ?_
        exact (hreturns hoff).imp_left fun hshort => ⟨rfl, hshort⟩
      rw [hend]
      exact ⟨.refl _, hahead⟩
    · refine endPrice_between hw.ticksAgree hw.wf.spacing_pos hw.wf.positions hahead ?_ ?_
      · cases zeroForOne with
        | true =>
          simp only [Onward, if_true]
          exact le_trans (by decide) (Nat.zero_le _)
        | false =>
          simp only [OffRange, Onward, Bool.false_eq_true, if_false] at hoff ⊢
          exact not_lt.mp hoff
      · rw [hw.wf.tick]
        refine sqrtPriceToTick_faces ?_
        rintro rfl
        simp only [OffRange, if_true] at hoff
        exact Nat.pos_of_ne_zero hoff

/-- A swap down to a limit between two ticks. -/
theorem swap_stops_at_limit :
    ∃ w w' delta0 delta1 outcome, Reachable w ∧
      swap w ⟨9⟩ true 5000 (2 ^ 96 - 2 ^ 84) = .ok (w', delta0, delta1, outcome) ∧
      KeepsOrder w.pool true (afterFee w.pool 5000) (2 ^ 96 - 2 ^ 84) := by
  obtain ⟨w, hr, hw⟩ := exists_reachable 3000 unitPrice [.addLiquidity ⟨7⟩ (-600) 600 1000000]
    (fun w => Yields (swap w ⟨9⟩ true 5000 (2 ^ 96 - 2 ^ 84)) fun x =>
      Onward true w.pool.sqrtPriceX96 x.1.pool.sqrtPriceX96 ∧
        Onward true x.1.pool.sqrtPriceX96 (2 ^ 96 - 2 ^ 84))
    (by decide +kernel)
  obtain ⟨⟨w', delta0, delta1, outcome⟩, hswap, hrespects⟩ := yields_iff.mp hw
  exact ⟨w, w', delta0, delta1, outcome, hr, hswap, (swap_respects_limit_iff hr hswap).mp hrespects⟩

/-- **A limit on the wrong side turns the swap round.** The price is to fall, the limit is above it,
and the price goes up to the limit. -/
theorem swap_turns_round :
    ∃ w w' delta0 delta1 outcome, Reachable w ∧
      swap w ⟨9⟩ true 5000 (2 ^ 96 + 2 ^ 84) = .ok (w', delta0, delta1, outcome) ∧
      w.pool.sqrtPriceX96 = 2 ^ 96 ∧ w'.pool.sqrtPriceX96 = 2 ^ 96 + 2 ^ 84 ∧
      ¬ Onward true w.pool.sqrtPriceX96 w'.pool.sqrtPriceX96 := by
  obtain ⟨w, hr, hw⟩ := exists_reachable 3000 unitPrice [.addLiquidity ⟨7⟩ (-600) 600 1000000]
    (fun w => Yields (swap w ⟨9⟩ true 5000 (2 ^ 96 + 2 ^ 84)) fun x =>
      w.pool.sqrtPriceX96 = 2 ^ 96 ∧ x.1.pool.sqrtPriceX96 = 2 ^ 96 + 2 ^ 84 ∧
        ¬ Onward true w.pool.sqrtPriceX96 x.1.pool.sqrtPriceX96)
    (by decide +kernel)
  obtain ⟨⟨w', delta0, delta1, outcome⟩, hswap, hold, hnew, hup⟩ := yields_iff.mp hw
  exact ⟨w, w', delta0, delta1, outcome, hr, hswap, hold, hnew, hup⟩

end Swyft.ClPool
