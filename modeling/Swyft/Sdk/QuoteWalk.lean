import Swyft.Sdk.Quote

/-!
# The walk of a quote

The loop of `getSwapQuote` without its exceptions: what it does to the price, the input that is left
and the output, on a list of prices. Each step takes in and gives out a whole segment, or a share of
it where the input ends. A step to a tick behind the price is a step to nowhere, and ends the walk.

## Main definitions

* `segmentTaken`, `segmentGiven` — what a segment takes in and gives out, on all integers
* `walk` — the loop on prices
* `Passable` — the loop reads and divides without an exception
* `reach` — what the ticks take in, as far as the walk could go with any input
* `Accepted`, `finishQuote` — what `getSwapQuote` does before the loop and after it

## Main results

* `quoteLoop_of_passable` — the loop is the walk, where it has no exception
* `walk_takeWhile` — the walk goes no further than the first tick behind the price
* `walk_remaining_pos_iff` — input is left over exactly where the ticks do not reach that far
* `getSwapQuote_of_passable` — the quote is what the walk ends with
-/

namespace Swyft.Sdk

open Checked

/-! ### Steps and walks -/

/-- What the segment between two prices takes in. -/
def segmentTaken (zeroForOne : Bool) (liquidity current next : ℤ) : ℤ :=
  if zeroForOne then (liquidity * (current - next)).tdiv current
  else (liquidity * (next - current)).tdiv next

/-- What it gives out. -/
def segmentGiven (zeroForOne : Bool) (liquidity current next : ℤ) : ℤ :=
  if zeroForOne then (liquidity * (current - next)).tdiv next
  else (liquidity * (next - current)).tdiv current

/-- The loop of `getSwapQuote`, on the prices of the ticks. -/
def walk (zeroForOne : Bool) (liquidity : ℤ) : List ℤ → QuoteState → QuoteState
  | [], st => st
  | target :: targets, st =>
    let next := stepTarget st.sqrtPrice target zeroForOne
    let taken := segmentTaken zeroForOne liquidity st.sqrtPrice next
    let given := segmentGiven zeroForOne liquidity st.sqrtPrice next
    if st.remainingIn ≤ 0 then st
    else if st.remainingIn < taken then
      { remainingIn := 0
        totalOut := st.totalOut + (given * st.remainingIn).tdiv taken
        sqrtPrice := st.sqrtPrice }
    else if next = target then
      walk zeroForOne liquidity targets ⟨st.remainingIn - taken, st.totalOut + given, next⟩
    else ⟨st.remainingIn - taken, st.totalOut + given, next⟩

/-- The price of a tick, zero where its text is no number. -/
def TickState.price (s : TickState) : ℤ := (Js.bigInt s.sqrtPriceX96).getD 0

namespace PoolState

/-- The price of a pool, zero where its text is no number. -/
def price (p : PoolState) : ℤ := (Js.bigInt p.sqrtPriceX96).getD 0

/-- The liquidity of a pool, zero where its text is no number. -/
def liquidityAmount (p : PoolState) : ℤ := (Js.bigInt p.liquidity).getD 0

end PoolState

/-- Along the ticks, as far as there is input left: the text of a price is a number, and neither of
the two prices of the segment is zero. -/
def Passable (zeroForOne : Bool) (liquidity : ℤ) : List TickState → (current remaining : ℤ) → Prop
  | [], _, _ => True
  | s :: ss, current, remaining =>
    let next := stepTarget current s.price zeroForOne
    let taken := segmentTaken zeroForOne liquidity current next
    0 < remaining → (Js.bigInt s.sqrtPriceX96).isSome ∧ current ≠ 0 ∧ next ≠ 0 ∧
      (taken ≤ remaining → next = s.price →
        Passable zeroForOne liquidity ss next (remaining - taken))

/-- The package's own exception. -/
def Thrown.Own (e : Thrown) : Prop := ∃ message, e = .quoteValidationError message

theorem not_own_syntaxError (message : String) : ¬ (Thrown.syntaxError message).Own := by
  rintro ⟨_, ⟨⟩⟩

theorem not_own_rangeError (message : String) : ¬ (Thrown.rangeError message).Own := by
  rintro ⟨_, ⟨⟩⟩

theorem readBigInt_of_some {text : String} {n : ℤ} (h : Js.bigInt text = some n) :
    readBigInt text = .ok n := by
  rw [readBigInt, h]
  rfl

theorem readBigInt_of_none {text : String} (h : Js.bigInt text = none) :
    readBigInt text = .error (.syntaxError ("Cannot convert " ++ text ++ " to a BigInt")) := by
  rw [readBigInt, h]
  rfl

section Walk

variable {zeroForOne : Bool} {liquidity current next target remaining x : ℤ}

theorem segmentTaken_self : segmentTaken zeroForOne liquidity current current = 0 := by
  cases zeroForOne <;> simp [segmentTaken]

theorem segmentGiven_self : segmentGiven zeroForOne liquidity current current = 0 := by
  cases zeroForOne <;> simp [segmentGiven]

theorem bigDiv_of_ne {a b : ℤ} (h : b ≠ 0) : bigDiv a b = .ok (a.tdiv b) := if_neg h

theorem bigDiv_zero (a : ℤ) : bigDiv a 0 = .error (.rangeError "Division by zero") := rfl

theorem stepIn_of_ne (hc : current ≠ 0) (hn : next ≠ 0) :
    stepIn liquidity current next zeroForOne
      = .ok (segmentTaken zeroForOne liquidity current next) := by
  cases zeroForOne with
  | true => exact bigDiv_of_ne hc
  | false => exact bigDiv_of_ne hn

theorem stepOut_of_ne (hc : current ≠ 0) (hn : next ≠ 0) :
    stepOut liquidity current next zeroForOne
      = .ok (segmentGiven zeroForOne liquidity current next) := by
  cases zeroForOne with
  | true => exact bigDiv_of_ne hn
  | false => exact bigDiv_of_ne hc

/-- A step from or to a zero price divides by it. -/
theorem computeSwapStep_error (h : ¬ (current ≠ 0 ∧ stepTarget current target zeroForOne ≠ 0)) :
    computeSwapStep current target liquidity remaining zeroForOne
      = .error (.rangeError "Division by zero") := by
  rw [computeSwapStep]
  generalize stepTarget current target zeroForOne = next at h
  by_cases hc : current = 0
  · by_cases hn : next = 0
    · have hin : stepIn liquidity current next zeroForOne
          = .error (.rangeError "Division by zero") := by
        cases zeroForOne <;> simp [stepIn, hc, hn, bigDiv_zero]
      rw [hin]
      rfl
    · cases zeroForOne with
      | true =>
        rw [stepIn, if_pos rfl, hc, bigDiv_zero]
        rfl
      | false =>
        rw [stepIn, if_neg Bool.false_ne_true, bigDiv_of_ne hn, ok_bind, stepOut,
          if_neg Bool.false_ne_true, hc, bigDiv_zero]
        rfl
  · obtain rfl : next = 0 := by
      by_contra hn
      exact h ⟨hc, hn⟩
    cases zeroForOne with
    | true =>
      rw [stepIn, if_pos rfl, bigDiv_of_ne hc, ok_bind, stepOut, if_pos rfl, bigDiv_zero]
      rfl
    | false =>
      rw [stepIn, if_neg Bool.false_ne_true, bigDiv_zero]
      rfl

/-- Any other step is the walk's. -/
theorem computeSwapStep_of_ne (hc : current ≠ 0) (hn : stepTarget current target zeroForOne ≠ 0)
    (hpos : 0 < remaining) :
    computeSwapStep current target liquidity remaining zeroForOne = .ok
      (let next := stepTarget current target zeroForOne
      let taken := segmentTaken zeroForOne liquidity current next
      let given := segmentGiven zeroForOne liquidity current next
      if remaining < taken then ⟨remaining, (given * remaining).tdiv taken, current, false⟩
      else ⟨taken, given, next, decide (next = target)⟩) := by
  simp only [computeSwapStep, stepIn_of_ne hc hn, stepOut_of_ne hc hn, ok_bind]
  split
  case isTrue hlt =>
    rw [bigDiv_of_ne (by omega), ok_bind]
    rfl
  case isFalse => rfl

/-- **The loop is the walk**, where the ticks are passable. -/
theorem quoteLoop_of_passable {ticks : List TickState} {st : QuoteState}
    (h : Passable zeroForOne liquidity ticks st.sqrtPrice st.remainingIn) :
    quoteLoop liquidity zeroForOne ticks st
      = .ok (walk zeroForOne liquidity (ticks.map TickState.price) st) := by
  induction ticks generalizing st with
  | nil => rfl
  | cons s ticks ih =>
    rw [quoteLoop, List.map_cons, walk]
    by_cases hdone : st.remainingIn ≤ 0
    · rw [if_pos hdone, if_pos hdone]
      rfl
    obtain ⟨htext, hc, hn, hrest⟩ := h (not_le.mp hdone)
    obtain ⟨target, htarget⟩ := Option.isSome_iff_exists.mp htext
    have hprice : s.price = target := by rw [TickState.price, htarget, Option.getD_some]
    rw [hprice] at hn hrest ⊢
    rw [if_neg hdone, if_neg hdone, readBigInt_of_some htarget, ok_bind,
      computeSwapStep_of_ne hc hn (not_le.mp hdone), ok_bind]
    dsimp only
    split
    case isTrue hlt =>
      rw [if_neg Bool.false_ne_true, sub_self]
      rfl
    case isFalse hle =>
      dsimp only
      split
      case isTrue hreached =>
        have hreached := of_decide_eq_true hreached
        rw [if_pos hreached]
        exact ih (hrest (not_lt.mp hle) hreached)
      case isFalse hstopped =>
        rw [if_neg (by simpa using hstopped)]
        rfl

/-- Elsewhere it stops with an exception of the language. -/
theorem quoteLoop_of_not_passable {ticks : List TickState} {st : QuoteState}
    (h : ¬ Passable zeroForOne liquidity ticks st.sqrtPrice st.remainingIn) :
    ∃ e, quoteLoop liquidity zeroForOne ticks st = .error e ∧ ¬ e.Own := by
  induction ticks generalizing st with
  | nil => exact absurd trivial h
  | cons s ticks ih =>
    rw [Passable] at h
    obtain ⟨hpos, h⟩ := Classical.not_imp.mp h
    rw [quoteLoop, if_neg (not_le.mpr hpos)]
    cases htext : Js.bigInt s.sqrtPriceX96 with
    | none =>
      rw [readBigInt_of_none htext]
      exact ⟨_, rfl, not_own_syntaxError _⟩
    | some target =>
      have hprice : s.price = target := by rw [TickState.price, htext, Option.getD_some]
      rw [hprice, htext] at h
      rw [readBigInt_of_some htext, ok_bind]
      by_cases hne : st.sqrtPrice ≠ 0 ∧ stepTarget st.sqrtPrice target zeroForOne ≠ 0
      · -- the step goes well, and the rest does not
        rw [computeSwapStep_of_ne hne.1 hne.2 hpos, ok_bind]
        have hrest : ¬ (_ → _ → _) := fun hrest => h ⟨rfl, hne.1, hne.2, hrest⟩
        obtain ⟨hle, hrest⟩ := Classical.not_imp.mp hrest
        obtain ⟨hreached, hrest⟩ := Classical.not_imp.mp hrest
        dsimp only
        rw [if_neg (not_lt.mpr hle)]
        dsimp only
        rw [if_pos (decide_eq_true hreached)]
        exact ih hrest
      · rw [computeSwapStep_error hne]
        exact ⟨_, rfl, not_own_rangeError _⟩

end Walk

/-! ### How far a walk goes -/

section Reach

variable {zeroForOne : Bool} {liquidity current next target price : ℤ} {st : QuoteState}

theorem walk_of_done (h : st.remainingIn ≤ 0) (targets : List ℤ) :
    walk zeroForOne liquidity targets st = st := by
  cases targets with
  | nil => rfl
  | cons target targets => rw [walk, if_pos h]

/-- Where the input ends on the first ticks, the others do not matter. -/
theorem walk_append_of_done {targets : List ℤ} (targets' : List ℤ)
    (h : (walk zeroForOne liquidity targets st).remainingIn ≤ 0) :
    walk zeroForOne liquidity (targets ++ targets') st = walk zeroForOne liquidity targets st := by
  induction targets generalizing st with
  | nil => exact walk_of_done h targets'
  | cons target targets ih =>
    rw [List.cons_append]
    simp only [walk] at h ⊢
    split_ifs at h ⊢
    · rfl
    · rfl
    · exact ih h
    · rfl

/-- A price on the side that a swap from `price` moves away from. -/
def Behind (zeroForOne : Bool) (price target : ℤ) : Prop :=
  if zeroForOne then price < target else target < price

instance (zeroForOne : Bool) (price target : ℤ) : Decidable (Behind zeroForOne price target) := by
  unfold Behind
  infer_instance

/-- A step never falls behind. -/
theorem not_behind_stepTarget (h : ¬ Behind zeroForOne price current) :
    ¬ Behind zeroForOne price (stepTarget current target zeroForOne) := by
  cases zeroForOne <;> simp only [Behind, stepTarget, if_true, Bool.false_eq_true, if_false,
    not_lt] at h ⊢ <;> split_ifs <;> omega

/-- **The walk goes no further than the first tick behind the price** it starts from. -/
theorem walk_takeWhile (h : ¬ Behind zeroForOne price st.sqrtPrice) (targets : List ℤ) :
    walk zeroForOne liquidity targets st
      = walk zeroForOne liquidity (targets.takeWhile fun t => ¬ Behind zeroForOne price t) st := by
  induction targets generalizing st with
  | nil => rfl
  | cons target targets ih =>
    by_cases hbehind : Behind zeroForOne price target
    · -- the step goes nowhere, and the tick is not reached
      have hnext : stepTarget st.sqrtPrice target zeroForOne = st.sqrtPrice ∧
          st.sqrtPrice ≠ target := by
        cases zeroForOne <;> simp only [Behind, stepTarget, if_true, Bool.false_eq_true, if_false,
          not_lt] at h hbehind ⊢ <;> constructor <;> omega
      rw [List.takeWhile_cons_of_neg (by simpa using hbehind)]
      show walk zeroForOne liquidity (target :: targets) st = st
      rw [walk, hnext.1, segmentTaken_self, segmentGiven_self, if_neg hnext.2, sub_zero, add_zero]
      split_ifs with hdone hshort
      · rfl
      · exact absurd hshort.le hdone
      · rfl
    · rw [List.takeWhile_cons_of_pos (by simpa using hbehind), walk, walk]
      split_ifs with hdone hshort hreached
      · rfl
      · rfl
      · exact ih (not_behind_stepTarget h)
      · rfl

/-- What the ticks take in, as far as a walk could go with any input. -/
def reach (zeroForOne : Bool) (liquidity : ℤ) : ℤ → List ℤ → ℤ
  | _, [] => 0
  | current, target :: targets =>
    let next := stepTarget current target zeroForOne
    segmentTaken zeroForOne liquidity current next
      + if next = target then reach zeroForOne liquidity next targets else 0

theorem stepTarget_pos (hc : 0 < current) (ht : 0 < target) :
    0 < stepTarget current target zeroForOne := by
  cases zeroForOne <;> simp only [stepTarget, if_true, Bool.false_eq_true, if_false] <;>
    split_ifs <;> assumption

/-- A step takes in nothing below zero, where the price it starts from is positive. -/
theorem segmentTaken_nonneg (hl : 0 ≤ liquidity) (hc : 0 < current) :
    0 ≤ segmentTaken zeroForOne liquidity current (stepTarget current target zeroForOne) := by
  cases zeroForOne with
  | true =>
    simp only [segmentTaken, stepTarget, if_true]
    refine Int.tdiv_nonneg (mul_nonneg hl ?_) hc.le
    split_ifs <;> omega
  | false =>
    simp only [segmentTaken, stepTarget, Bool.false_eq_true, if_false]
    refine Int.tdiv_nonneg (mul_nonneg hl ?_) ?_ <;> split_ifs <;> omega

theorem segmentGiven_nonneg (hl : 0 ≤ liquidity) (hc : 0 < current) (ht : 0 < target) :
    0 ≤ segmentGiven zeroForOne liquidity current (stepTarget current target zeroForOne) := by
  cases zeroForOne with
  | true =>
    simp only [segmentGiven, stepTarget, if_true]
    refine Int.tdiv_nonneg (mul_nonneg hl ?_) ?_ <;> split_ifs <;> omega
  | false =>
    simp only [segmentGiven, stepTarget, Bool.false_eq_true, if_false]
    refine Int.tdiv_nonneg (mul_nonneg hl ?_) hc.le
    split_ifs <;> omega

theorem reach_nonneg (hl : 0 ≤ liquidity) (hc : 0 < current) {targets : List ℤ}
    (ht : ∀ t ∈ targets, 0 < t) : 0 ≤ reach zeroForOne liquidity current targets := by
  induction targets generalizing current with
  | nil => exact le_rfl
  | cons target targets ih =>
    rw [reach]
    have hnext : 0 < stepTarget current target zeroForOne :=
      stepTarget_pos hc (ht target List.mem_cons_self)
    have hrest := ih hnext fun t h => ht t (List.mem_cons_of_mem _ h)
    have htaken : 0 ≤ segmentTaken zeroForOne liquidity current
        (stepTarget current target zeroForOne) := segmentTaken_nonneg hl hc
    split_ifs <;> omega

/-- **Input is left over exactly where the ticks do not reach that far.** -/
theorem walk_remaining_pos_iff (hl : 0 ≤ liquidity) (hc : 0 < st.sqrtPrice) {targets : List ℤ}
    (ht : ∀ t ∈ targets, 0 < t) :
    0 < (walk zeroForOne liquidity targets st).remainingIn
      ↔ reach zeroForOne liquidity st.sqrtPrice targets < st.remainingIn := by
  induction targets generalizing st with
  | nil => rfl
  | cons target targets ih =>
    have hnext : 0 < stepTarget st.sqrtPrice target zeroForOne :=
      stepTarget_pos hc (ht target List.mem_cons_self)
    have hrest : ∀ t ∈ targets, 0 < t := fun t h => ht t (List.mem_cons_of_mem _ h)
    have htaken : 0 ≤ segmentTaken zeroForOne liquidity st.sqrtPrice
        (stepTarget st.sqrtPrice target zeroForOne) := segmentTaken_nonneg hl hc
    have hreach : 0 ≤ reach zeroForOne liquidity (stepTarget st.sqrtPrice target zeroForOne)
        targets := reach_nonneg hl hnext hrest
    rw [walk, reach]
    by_cases hreached : stepTarget st.sqrtPrice target zeroForOne = target
    · rw [if_pos hreached, if_pos hreached]
      split_ifs with hdone hshort
      · omega
      · show (0 : ℤ) < 0 ↔ _
        omega
      · rw [ih hnext hrest]
        show reach _ _ (stepTarget _ _ _) _ < _ - _ ↔ _
        omega
    · rw [if_neg hreached, if_neg hreached, add_zero]
      split_ifs with hdone hshort
      · omega
      · show (0 : ℤ) < 0 ↔ _
        omega
      · show 0 < _ - _ ↔ _
        omega

end Reach

/-! ### The function around the loop -/

namespace LocalSwapQuoteParams

/-- The slippage, where it is finite. -/
def slippageBps (d : LocalSwapQuoteParams) : ℚ := d.slippage.getD 0

/-- `feeAmount`, where the fee tier is an integer. -/
def feeAmount (d : LocalSwapQuoteParams) : ℤ :=
  (toBigIntAmount d.amountIn * (d.poolState.feeTier.getD 0).num).tdiv 1000000

/-- `amountInAfterFee`. -/
def amountInAfterFee (d : LocalSwapQuoteParams) : ℤ := toBigIntAmount d.amountIn - d.feeAmount

/-- The direction, where the token is one of the pool's. -/
def zeroForOne (d : LocalSwapQuoteParams) : Bool := decide (d.tokenIn = d.poolState.token0)

/-- The ladder in the direction of the swap. -/
def sortedTicks (d : LocalSwapQuoteParams) : List TickState :=
  sortTicks d.zeroForOne (d.poolState.ticks.getD [])

/-- The same request to the same pool with another ladder. -/
def withTicks (d : LocalSwapQuoteParams) (ticks : Option (List TickState)) :
    LocalSwapQuoteParams :=
  { d with poolState := { d.poolState with ticks } }

section WithTicks

variable (d : LocalSwapQuoteParams) (ticks : Option (List TickState))

@[simp] theorem withTicks_slippage : (d.withTicks ticks).slippage = d.slippage := rfl

@[simp] theorem withTicks_feeTier :
    (d.withTicks ticks).poolState.feeTier = d.poolState.feeTier := rfl

@[simp] theorem withTicks_direction :
    direction (d.withTicks ticks).poolState (d.withTicks ticks).tokenIn
      = direction d.poolState d.tokenIn := rfl

end WithTicks

/-- What passes the validations that come before any price is read. -/
structure Accepted (d : LocalSwapQuoteParams) : Prop where
  slippage : ∃ x, d.slippage = some x ∧ 0 ≤ x ∧ x ≤ 10000
  feeTier : ∃ x, d.poolState.feeTier = some x ∧ x.den = 1 ∧ 0 < x
  amountIn : 0 < toBigIntAmount d.amountIn
  token : d.tokenIn = d.poolState.token0 ∨ d.tokenIn = d.poolState.token1

end LocalSwapQuoteParams

/-- What `getSwapQuote` does with the variables of its loop in the end. -/
def finishQuote (lessSlippage : ℚ → ℚ) (d : LocalSwapQuoteParams) (final : QuoteState) :
    Js LocalSwapQuote := do
  require (final.remainingIn ≤ 0) (invalidQuote "amount exceeds available liquidity")
  require (0 < final.totalOut) (invalidQuote "zero liquidity")
  let kept ← integerBigInt (lessSlippage d.slippageBps)
  let minimumReceived ← bigDiv (final.totalOut * kept) 10000
  pure {
    amountOut := toString final.totalOut
    fee := toString d.feeAmount
    minimumReceived := toString minimumReceived
    sqrtPriceLimitX96 := toString final.sqrtPrice }

section Function

open LocalSwapQuoteParams

variable {d : LocalSwapQuoteParams}

theorem validateSlippage_eq (x : Number) :
    validateSlippage x
      = if ∃ y, x = some y ∧ 0 ≤ y ∧ y ≤ 10000 then .ok (x.getD 0)
        else .error (invalidQuote "slippage must be between 0 and 10000 basis points") := by
  cases x with
  | none =>
    rw [if_neg (by simp)]
    rfl
  | some y =>
    by_cases h : 0 ≤ y ∧ y ≤ 10000
    · rw [if_pos ⟨y, rfl, h⟩, validateSlippage]
      simp only [getOr, ok_bind, require_pos h]
      rfl
    · rw [if_neg (by simpa using h), validateSlippage]
      simp only [getOr, ok_bind, require_neg h]
      rfl

theorem validateFeeTier_eq (x : Number) :
    validateFeeTier x
      = if ∃ y, x = some y ∧ y.den = 1 ∧ 0 < y then .ok (x.getD 0).num
        else .error (invalidQuote "feeTier must be a positive integer") := by
  cases x with
  | none =>
    rw [if_neg (by simp)]
    rfl
  | some y =>
    by_cases h : y.den = 1 ∧ 0 < y
    · rw [if_pos ⟨y, rfl, h⟩, validateFeeTier]
      simp only [getOr, ok_bind, require_pos h]
      rfl
    · rw [if_neg (by simpa using h), validateFeeTier]
      simp only [getOr, ok_bind, require_neg h]
      rfl

theorem direction_eq (h : d.tokenIn = d.poolState.token0 ∨ d.tokenIn = d.poolState.token1) :
    direction d.poolState d.tokenIn = .ok d.zeroForOne := by
  by_cases h0 : d.tokenIn = d.poolState.token0
  · rw [direction, if_pos h0, zeroForOne, decide_eq_true h0]
    rfl
  · rw [direction, if_neg h0, if_pos (h.resolve_left h0), zeroForOne, decide_eq_false h0]
    rfl

/-- **An accepted request** is read, walked and finished. -/
theorem getSwapQuote_of_accepted (lessSlippage : ℚ → ℚ) (h : d.Accepted) :
    getSwapQuote lessSlippage d = (do
      let sqrtPrice ← readBigInt d.poolState.sqrtPriceX96
      let liquidity ← readBigInt d.poolState.liquidity
      require (0 < liquidity) (invalidQuote "zero liquidity")
      let final ← quoteLoop liquidity d.zeroForOne d.sortedTicks ⟨d.amountInAfterFee, 0, sqrtPrice⟩
      finishQuote lessSlippage d final) := by
  rw [getSwapQuote, validateSlippage_eq, if_pos h.slippage, ok_bind, validateFeeTier_eq,
    if_pos h.feeTier, ok_bind]
  dsimp only
  rw [require_pos h.amountIn, ok_bind, direction_eq h.token, ok_bind,
    bigDiv_of_ne (by norm_num : (1000000 : ℤ) ≠ 0)]
  rfl

/-- **Any other request** is refused before the ladder is looked at. -/
theorem getSwapQuote_of_not_accepted (lessSlippage : ℚ → ℚ) (h : ¬ d.Accepted) :
    ∃ message, ∀ ticks,
      getSwapQuote lessSlippage (d.withTicks ticks) = .error (invalidQuote message) := by
  simp only [getSwapQuote, withTicks_slippage, withTicks_feeTier, withTicks_direction]
  rw [validateSlippage_eq]
  by_cases hslippage : ∃ x, d.slippage = some x ∧ 0 ≤ x ∧ x ≤ 10000
  · rw [if_pos hslippage, validateFeeTier_eq]
    by_cases hfee : ∃ x, d.poolState.feeTier = some x ∧ x.den = 1 ∧ 0 < x
    · rw [if_pos hfee]
      by_cases hamount : 0 < toBigIntAmount d.amountIn
      · have htoken : ¬ (d.tokenIn = d.poolState.token0 ∨ d.tokenIn = d.poolState.token1) :=
          fun htoken => h ⟨hslippage, hfee, hamount, htoken⟩
        rw [not_or] at htoken
        refine ⟨"invalid token direction", fun ticks => ?_⟩
        have hamount : 0 < toBigIntAmount (d.withTicks ticks).amountIn := hamount
        rw [ok_bind, ok_bind, require_pos hamount, ok_bind, direction, if_neg htoken.1,
          if_neg htoken.2, error_bind]
      · refine ⟨"amountIn must be greater than zero", fun ticks => ?_⟩
        have hamount : ¬ 0 < toBigIntAmount (d.withTicks ticks).amountIn := hamount
        rw [ok_bind, ok_bind, require_neg hamount, error_bind]
    · refine ⟨"feeTier must be a positive integer", fun ticks => ?_⟩
      rw [if_neg hfee, ok_bind, error_bind]
  · refine ⟨"slippage must be between 0 and 10000 basis points", fun ticks => ?_⟩
    rw [if_neg hslippage, error_bind]

/-- The walk of a request, where its pool has a price and liquidity. -/
def LocalSwapQuoteParams.final (d : LocalSwapQuoteParams) : QuoteState :=
  walk d.zeroForOne d.poolState.liquidityAmount (d.sortedTicks.map TickState.price)
    ⟨d.amountInAfterFee, 0, d.poolState.price⟩

theorem bigInt_of_getD_ne {text : String} (h : (Js.bigInt text).getD 0 ≠ 0) :
    Js.bigInt text = some ((Js.bigInt text).getD 0) := by
  cases htext : Js.bigInt text with
  | none => exact absurd (by rw [htext]; rfl) h
  | some n => rfl

/-- **The quote is what the walk ends with**, in a pool with liquidity and along passable ticks. -/
theorem getSwapQuote_of_passable (lessSlippage : ℚ → ℚ) (h : d.Accepted)
    (hprice : Js.bigInt d.poolState.sqrtPriceX96 = some d.poolState.price)
    (hliquidity : 0 < d.poolState.liquidityAmount)
    (hticks : Passable d.zeroForOne d.poolState.liquidityAmount d.sortedTicks d.poolState.price
      d.amountInAfterFee) :
    getSwapQuote lessSlippage d = finishQuote lessSlippage d d.final := by
  rw [getSwapQuote_of_accepted lessSlippage h, readBigInt_of_some hprice, ok_bind,
    readBigInt_of_some (bigInt_of_getD_ne hliquidity.ne'), ok_bind]
  show (require (0 < d.poolState.liquidityAmount) _ >>= fun _ =>
    quoteLoop d.poolState.liquidityAmount _ _ _ >>= _) = _
  rw [require_pos hliquidity, ok_bind, quoteLoop_of_passable hticks, ok_bind]
  rfl

/-- **A quote that is returned** is what the walk of an accepted request ends with. -/
theorem getSwapQuote_eq_ok {lessSlippage : ℚ → ℚ} {quote : LocalSwapQuote}
    (h : getSwapQuote lessSlippage d = .ok quote) :
    d.Accepted ∧ 0 < d.poolState.liquidityAmount ∧
      finishQuote lessSlippage d d.final = .ok quote := by
  have haccepted : d.Accepted := by
    by_contra hnot
    obtain ⟨message, hmessage⟩ := getSwapQuote_of_not_accepted lessSlippage hnot
    have hrefused : getSwapQuote lessSlippage d = .error _ := hmessage d.poolState.ticks
    rw [hrefused] at h
    exact nomatch h
  rw [getSwapQuote_of_accepted lessSlippage haccepted] at h
  obtain ⟨price, hprice, h⟩ := bind_eq_ok.mp h
  obtain ⟨liquidity, hliquidity, h⟩ := bind_eq_ok.mp h
  obtain ⟨_, hpos, h⟩ := bind_eq_ok.mp h
  obtain ⟨final, hloop, h⟩ := bind_eq_ok.mp h
  have hprice' : d.poolState.price = price := by
    rw [PoolState.price, readBigInt_eq_ok.mp hprice, Option.getD_some]
  have hliquidity' : d.poolState.liquidityAmount = liquidity := by
    rw [PoolState.liquidityAmount, readBigInt_eq_ok.mp hliquidity, Option.getD_some]
  refine ⟨haccepted, hliquidity' ▸ require_eq_ok.mp hpos, ?_⟩
  by_cases hpassable : Passable d.zeroForOne liquidity d.sortedTicks price d.amountInAfterFee
  · have hwalk : quoteLoop liquidity d.zeroForOne d.sortedTicks ⟨d.amountInAfterFee, 0, price⟩
        = .ok _ := quoteLoop_of_passable hpassable
    rw [hwalk] at hloop
    rw [LocalSwapQuoteParams.final, hprice', hliquidity', Except.ok.inj hloop]
    exact h
  · obtain ⟨e, he, -⟩ : ∃ e, quoteLoop liquidity d.zeroForOne d.sortedTicks
        ⟨d.amountInAfterFee, 0, price⟩ = .error e ∧ ¬ e.Own := quoteLoop_of_not_passable hpassable
    rw [he] at hloop
    exact nomatch hloop

theorem integerBigInt_of_den {x : ℚ} (h : x.den = 1) : integerBigInt x = .ok x.num := if_pos h

/-- What becomes of the end of a walk, branch by branch. -/
theorem finishQuote_eq {lessSlippage : ℚ → ℚ} {final : QuoteState} :
    finishQuote lessSlippage d final =
      if final.remainingIn ≤ 0 then
        if 0 < final.totalOut then
          if (lessSlippage d.slippageBps).den = 1 then .ok {
            amountOut := toString final.totalOut
            fee := toString d.feeAmount
            minimumReceived :=
              toString ((final.totalOut * (lessSlippage d.slippageBps).num).tdiv 10000)
            sqrtPriceLimitX96 := toString final.sqrtPrice }
          else .error
            (.rangeError "cannot be converted to a BigInt because it is not an integer")
        else .error (invalidQuote "zero liquidity")
      else .error (invalidQuote "amount exceeds available liquidity") := by
  rw [finishQuote]
  split_ifs with hdone hout hden
  · rw [require_pos hdone, ok_bind, require_pos hout, ok_bind, integerBigInt_of_den hden, ok_bind,
      bigDiv_of_ne (by norm_num : (10000 : ℤ) ≠ 0), ok_bind]
    rfl
  · rw [require_pos hdone, ok_bind, require_pos hout, ok_bind, integerBigInt, if_neg hden,
      error_bind]
  · rw [require_pos hdone, ok_bind, require_neg hout, error_bind]
  · rw [require_neg hdone, error_bind]

/-- What a quote says of the end of its walk. -/
theorem finishQuote_eq_ok {lessSlippage : ℚ → ℚ} {final : QuoteState} {quote : LocalSwapQuote} :
    finishQuote lessSlippage d final = .ok quote ↔
      final.remainingIn ≤ 0 ∧ 0 < final.totalOut ∧ (lessSlippage d.slippageBps).den = 1 ∧
      quote = {
        amountOut := toString final.totalOut
        fee := toString d.feeAmount
        minimumReceived :=
          toString ((final.totalOut * (lessSlippage d.slippageBps).num).tdiv 10000)
        sqrtPriceLimitX96 := toString final.sqrtPrice } := by
  rw [finishQuote_eq]
  split_ifs with hdone hout hden
  · simp only [hdone, hout, hden, true_and, Except.ok.injEq]
    exact eq_comm
  · simp [hden]
  · simp [hout]
  · simp [hdone]

/-- Positive prices are passable. -/
theorem passable_of_pos {zeroForOne : Bool} {liquidity current remaining : ℤ}
    {ticks : List TickState} (hc : 0 < current) (ht : ∀ s ∈ ticks, 0 < s.price) :
    Passable zeroForOne liquidity ticks current remaining := by
  induction ticks generalizing current remaining with
  | nil => trivial
  | cons s ticks ih =>
    intro _
    have hs : 0 < s.price := ht s List.mem_cons_self
    have hnext : 0 < stepTarget current s.price zeroForOne := stepTarget_pos hc hs
    refine ⟨?_, hc.ne', hnext.ne', fun _ _ => ?_⟩
    · rw [bigInt_of_getD_ne hs.ne']
      rfl
    · exact ih hnext fun s h => ht s (List.mem_cons_of_mem _ h)

end Function

end Swyft.Sdk
