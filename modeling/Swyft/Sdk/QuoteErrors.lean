import Swyft.Sdk.QuoteMonotone

/-!
# Errors of a quote

`getSwapQuote` refuses what it validates with an error of its own. What it reads or divides without
a validation throws an exception of the language: a text that is no number, a price of zero, a
slippage that is no whole number of basis points.

## Main definitions

* `segments` — what the ticks of a ladder take in and give out, up to the first one behind
* `EndsIn`, `paid` — the segment in which an amount ends, and what is paid for it
* `Readable` — what `getSwapQuote` reads unvalidated for a request is a number it can use
* `OnlyOwnErrors` — every error of a result is the package's own

## Main results

* `walk_pays_iff` — a walk takes the whole amount and pays for it
* `own_errors_iff` — every error is the package's own
-/

namespace Swyft.Sdk

open Checked LocalSwapQuoteParams

/-! ### What a ladder pays -/

/-- A segment of a ladder. -/
structure Segment where
  taken : ℤ
  given : ℤ

/-- The segments of a ladder, up to the first tick behind the price of the one before it. -/
def segments (zeroForOne : Bool) (liquidity : ℤ) : ℤ → List ℤ → List Segment
  | _, [] => []
  | current, target :: targets =>
    let next := stepTarget current target zeroForOne
    ⟨segmentTaken zeroForOne liquidity current next,
        segmentGiven zeroForOne liquidity current next⟩ ::
      if next = target then segments zeroForOne liquidity next targets else []

/-- What the first `k` segments take in. -/
def takenBy (road : List Segment) (k : ℕ) : ℤ := ((road.take k).map Segment.taken).sum

/-- The amount is used up in segment `k`, and not before. -/
def EndsIn (road : List Segment) (amount : ℤ) (k : ℕ) : Prop :=
  k < road.length ∧ (∀ i ≤ k, takenBy road i < amount) ∧ amount ≤ takenBy road (k + 1)

/-- What is paid for an amount that ends in segment `k`: all that the segments before it give out,
and its share of that one. -/
def paid (road : List Segment) (amount : ℤ) (k : ℕ) : ℤ :=
  ((road.take k).map Segment.given).sum +
    (road[k]?.elim 0 fun s => (s.given * (amount - takenBy road k)).tdiv s.taken)

section Road

variable {road : List Segment} {s : Segment} {amount : ℤ} {k : ℕ}

@[simp] theorem takenBy_zero : takenBy road 0 = 0 := rfl

@[simp] theorem takenBy_succ : takenBy (s :: road) (k + 1) = s.taken + takenBy road k := rfl

theorem not_endsIn_nil : ¬ EndsIn [] amount k := fun h => absurd h.1 (Nat.not_lt_zero k)

theorem not_endsIn_of_nonpos (h : amount ≤ 0) : ¬ EndsIn road amount k := by
  rintro ⟨-, hbefore, -⟩
  exact absurd (hbefore 0 (Nat.zero_le k)) (not_lt.mpr h)

theorem endsIn_zero_iff : EndsIn (s :: road) amount 0 ↔ 0 < amount ∧ amount ≤ s.taken := by
  have hfirst : takenBy (s :: road) (0 + 1) = s.taken := by
    rw [takenBy_succ, takenBy_zero, add_zero]
  rw [EndsIn, hfirst]
  constructor
  · rintro ⟨-, hbefore, hle⟩
    exact ⟨hbefore 0 le_rfl, hle⟩
  · rintro ⟨hpos, hle⟩
    refine ⟨Nat.succ_pos _, fun i hi => ?_, hle⟩
    obtain rfl := Nat.le_zero.mp hi
    exact hpos

theorem endsIn_succ_iff :
    EndsIn (s :: road) amount (k + 1) ↔ 0 < amount ∧ EndsIn road (amount - s.taken) k := by
  constructor
  · rintro ⟨hlength, hbefore, hle⟩
    refine ⟨hbefore 0 (Nat.zero_le _), Nat.lt_of_succ_lt_succ hlength, fun i hi => ?_, ?_⟩
    · have := hbefore (i + 1) (Nat.succ_le_succ hi)
      rw [takenBy_succ] at this
      omega
    · rw [takenBy_succ] at hle
      omega
  · rintro ⟨hpos, hlength, hbefore, hle⟩
    refine ⟨Nat.succ_lt_succ hlength, fun i hi => ?_, ?_⟩
    · cases i with
      | zero => exact hpos
      | succ i =>
        have := hbefore i (Nat.le_of_succ_le_succ hi)
        rw [takenBy_succ]
        omega
    · rw [takenBy_succ]
      omega

theorem paid_zero : paid (s :: road) amount 0 = (s.given * amount).tdiv s.taken := by
  show (0 : ℤ) + (s.given * (amount - 0)).tdiv s.taken = _
  rw [zero_add, sub_zero]

theorem paid_succ : paid (s :: road) amount (k + 1) = s.given + paid road (amount - s.taken) k := by
  have hleft : amount - takenBy (s :: road) (k + 1) = amount - s.taken - takenBy road k := by
    rw [takenBy_succ]
    ring
  rw [paid, hleft]
  show (s.given + ((road.take k).map Segment.given).sum) + _ = _
  rw [add_assoc]
  rfl

/-- The amount is used up on the road, and with `base` more than nothing is paid for it. -/
def Pays (road : List Segment) (amount base : ℤ) : Prop :=
  ∃ k, EndsIn road amount k ∧ 0 < base + paid road amount k

theorem not_pays_nil {base : ℤ} : ¬ Pays [] amount base := fun ⟨_, hends, _⟩ => not_endsIn_nil hends

theorem not_pays_of_nonpos {base : ℤ} (h : amount ≤ 0) : ¬ Pays road amount base :=
  fun ⟨_, hends, _⟩ => not_endsIn_of_nonpos h hends

/-- The amount ends in the first segment, or what is left of it on the rest of the road. -/
theorem pays_cons_iff {base : ℤ} : Pays (s :: road) amount base ↔ 0 < amount ∧
    ((amount ≤ s.taken ∧ 0 < base + (s.given * amount).tdiv s.taken) ∨
      Pays road (amount - s.taken) (base + s.given)) := by
  constructor
  · rintro ⟨k, hends, hpaid⟩
    cases k with
    | zero =>
      obtain ⟨hpos, hle⟩ := endsIn_zero_iff.mp hends
      exact ⟨hpos, .inl ⟨hle, paid_zero ▸ hpaid⟩⟩
    | succ k =>
      obtain ⟨hpos, hends⟩ := endsIn_succ_iff.mp hends
      rw [paid_succ, ← add_assoc] at hpaid
      exact ⟨hpos, .inr ⟨k, hends, hpaid⟩⟩
  · rintro ⟨hpos, ⟨hle, hpaid⟩ | ⟨k, hends, hpaid⟩⟩
    · exact ⟨0, endsIn_zero_iff.mpr ⟨hpos, hle⟩, paid_zero.symm ▸ hpaid⟩
    · refine ⟨k + 1, endsIn_succ_iff.mpr ⟨hpos, hends⟩, ?_⟩
      rw [paid_succ, ← add_assoc]
      exact hpaid

end Road

/-- **A walk takes the whole amount and pays for it** exactly where the road does. -/
theorem walk_pays_iff {zeroForOne : Bool} {liquidity : ℤ} {targets : List ℤ} {st : QuoteState}
    (hpos : 0 < st.remainingIn) :
    (walk zeroForOne liquidity targets st).remainingIn ≤ 0 ∧
        0 < (walk zeroForOne liquidity targets st).totalOut
      ↔ Pays (segments zeroForOne liquidity st.sqrtPrice targets) st.remainingIn st.totalOut := by
  induction targets generalizing st with
  | nil => exact iff_of_false (fun h => absurd h.1 (not_le.mpr hpos)) not_pays_nil
  | cons target targets ih =>
    rw [walk, segments, pays_cons_iff, if_neg (not_le.mpr hpos)]
    dsimp only
    generalize stepTarget st.sqrtPrice target zeroForOne = next
    generalize segmentTaken zeroForOne liquidity st.sqrtPrice next = taken
    generalize segmentGiven zeroForOne liquidity st.sqrtPrice next = given
    by_cases hshort : st.remainingIn < taken
    · -- the amount ends within the segment
      rw [if_pos hshort]
      have hrest : ¬ Pays (if next = target then segments zeroForOne liquidity next targets else [])
          (st.remainingIn - taken) (st.totalOut + given) := not_pays_of_nonpos (by omega)
      simp only [le_refl, true_and, hpos, hshort.le, hrest, or_false]
    · rw [if_neg hshort]
      by_cases hend : st.remainingIn = taken
      · -- the amount ends at the tick
        have hwhole : (given * st.remainingIn).tdiv taken = given := by
          rw [hend]
          exact Int.mul_tdiv_cancel _ (by omega)
        have hrest : ¬ Pays
            (if next = target then segments zeroForOne liquidity next targets else [])
            (st.remainingIn - taken) (st.totalOut + given) := not_pays_of_nonpos (by omega)
        have hwalk : (if next = target then
              walk zeroForOne liquidity targets ⟨st.remainingIn - taken, st.totalOut + given, next⟩
            else ⟨st.remainingIn - taken, st.totalOut + given, next⟩)
            = ⟨st.remainingIn - taken, st.totalOut + given, next⟩ := by
          split
          · exact walk_of_done (by show st.remainingIn - taken ≤ 0; omega) _
          · rfl
        rw [hwalk, hwhole]
        simp only [hrest, or_false, hpos, true_and]
        rw [hend, sub_self]
        simp only [le_refl, true_and]
      · have hleft : 0 < st.remainingIn - taken := by omega
        have hfirst : ¬ st.remainingIn ≤ taken := by omega
        simp only [hpos, hfirst, false_and, false_or, true_and]
        by_cases hreached : next = target
        · rw [if_pos hreached, if_pos hreached]
          exact ih hleft
        · rw [if_neg hreached, if_neg hreached]
          exact iff_of_false (fun h => absurd h.1 (not_le.mpr hleft)) not_pays_nil

/-! ### Which exceptions are thrown -/

namespace LocalSwapQuoteParams

/-- The segments of the ladder of a request. -/
def road (d : LocalSwapQuoteParams) : List Segment :=
  segments d.zeroForOne d.poolState.liquidityAmount d.poolState.price
    (d.sortedTicks.map TickState.price)

/-- What `getSwapQuote` reads of an accepted request without a validation: the texts of the pool's
price and liquidity are numbers; where there is liquidity, the ticks that the amount gets to are
numbers too, no segment up to there has an end at zero, and the slippage is a whole number of basis
points unless the road pays nothing for the amount. -/
structure Readable (lessSlippage : ℚ → ℚ) (d : LocalSwapQuoteParams) : Prop where
  price : (Js.bigInt d.poolState.sqrtPriceX96).isSome
  liquidity : (Js.bigInt d.poolState.liquidity).isSome
  ticks : 0 < d.poolState.liquidityAmount → Passable d.zeroForOne d.poolState.liquidityAmount
    d.sortedTicks d.poolState.price d.amountInAfterFee
  slippage : 0 < d.poolState.liquidityAmount → Pays d.road d.amountInAfterFee 0 →
    (lessSlippage d.slippageBps).den = 1

end LocalSwapQuoteParams

section Errors

variable {d : LocalSwapQuoteParams} {lessSlippage : ℚ → ℚ}

theorem own_invalidQuote (message : String) : (invalidQuote message).Own := ⟨message, rfl⟩

/-- Every error of a result is the package's own. -/
def OnlyOwnErrors (result : Js LocalSwapQuote) : Prop := ∀ e, result = .error e → e.Own

theorem onlyOwnErrors_error {e : Thrown} :
    OnlyOwnErrors (.error e : Js LocalSwapQuote) ↔ e.Own := by
  constructor
  · intro h
    exact h e rfl
  · rintro h _ ⟨⟩
    exact h

/-- The final part throws an exception of the language where it comes to an unreadable slippage. -/
theorem onlyOwnErrors_finishQuote {final : QuoteState} :
    OnlyOwnErrors (finishQuote lessSlippage d final)
      ↔ (final.remainingIn ≤ 0 ∧ 0 < final.totalOut → (lessSlippage d.slippageBps).den = 1) := by
  rw [finishQuote_eq]
  split_ifs with hdone hout hden
  · exact iff_of_true (fun _ h => nomatch h) fun _ => hden
  · rw [onlyOwnErrors_error]
    exact iff_of_false (not_own_rangeError _) fun h => hden (h ⟨hdone, hout⟩)
  · rw [onlyOwnErrors_error]
    exact iff_of_true (own_invalidQuote _) fun h => absurd h.2 hout
  · rw [onlyOwnErrors_error]
    exact iff_of_true (own_invalidQuote _) fun h => absurd h.1 hdone

/-- The walk of a request takes the whole amount and pays for it where its road does. -/
theorem final_pays_iff :
    d.final.remainingIn ≤ 0 ∧ 0 < d.final.totalOut ↔ Pays d.road d.amountInAfterFee 0 := by
  by_cases hpos : 0 < d.amountInAfterFee
  · have hstart : 0 < (⟨d.amountInAfterFee, 0, d.poolState.price⟩ : QuoteState).remainingIn := hpos
    exact walk_pays_iff hstart
  · have hnone : d.final = ⟨d.amountInAfterFee, 0, d.poolState.price⟩ :=
      walk_of_done (not_lt.mp hpos) _
    rw [hnone]
    exact iff_of_false (fun h => lt_irrefl 0 h.2) (not_pays_of_nonpos (not_lt.mp hpos))

end Errors

/-- **`getSwapQuote` fails with its own errors only** exactly where the request is not accepted, or
what is read of it unvalidated is readable. -/
theorem own_errors_iff (lessSlippage : ℚ → ℚ) (d : LocalSwapQuoteParams) :
    OnlyOwnErrors (getSwapQuote lessSlippage d) ↔ ¬ d.Accepted ∨ d.Readable lessSlippage := by
  by_cases haccepted : d.Accepted
  · rw [or_iff_right (not_not_intro haccepted), getSwapQuote_of_accepted lessSlippage haccepted]
    cases hprice : Js.bigInt d.poolState.sqrtPriceX96 with
    | none =>
      rw [readBigInt_of_none hprice, error_bind, onlyOwnErrors_error]
      exact iff_of_false (not_own_syntaxError _) fun h => by simpa [hprice] using h.price
    | some price =>
      cases hliquidity : Js.bigInt d.poolState.liquidity with
      | none =>
        rw [readBigInt_of_some hprice, ok_bind, readBigInt_of_none hliquidity, error_bind,
          onlyOwnErrors_error]
        exact iff_of_false (not_own_syntaxError _) fun h => by simpa [hliquidity] using h.liquidity
      | some liquidity =>
        rw [readBigInt_of_some hprice, ok_bind, readBigInt_of_some hliquidity, ok_bind]
        obtain rfl : d.poolState.price = price := by
          rw [PoolState.price, hprice, Option.getD_some]
        obtain rfl : d.poolState.liquidityAmount = liquidity := by
          rw [PoolState.liquidityAmount, hliquidity, Option.getD_some]
        have hprice : (Js.bigInt d.poolState.sqrtPriceX96).isSome := by rw [hprice]; rfl
        have hliquidity : (Js.bigInt d.poolState.liquidity).isSome := by rw [hliquidity]; rfl
        by_cases hpos : 0 < d.poolState.liquidityAmount
        · rw [require_pos hpos, ok_bind]
          by_cases hticks : Passable d.zeroForOne d.poolState.liquidityAmount d.sortedTicks
              d.poolState.price d.amountInAfterFee
          · have hloop : quoteLoop d.poolState.liquidityAmount d.zeroForOne d.sortedTicks
                ⟨d.amountInAfterFee, 0, d.poolState.price⟩ = .ok d.final :=
              quoteLoop_of_passable hticks
            rw [hloop, ok_bind, onlyOwnErrors_finishQuote, final_pays_iff]
            constructor
            · intro h
              exact ⟨hprice, hliquidity, fun _ => hticks, fun _ => h⟩
            · intro h
              exact h.slippage hpos
          · obtain ⟨e, hloop, he⟩ : ∃ e, quoteLoop d.poolState.liquidityAmount d.zeroForOne
                d.sortedTicks ⟨d.amountInAfterFee, 0, d.poolState.price⟩ = .error e ∧ ¬ e.Own :=
              quoteLoop_of_not_passable hticks
            rw [hloop, error_bind, onlyOwnErrors_error]
            exact iff_of_false he fun h => hticks (h.ticks hpos)
        · rw [require_neg hpos, error_bind, onlyOwnErrors_error]
          exact iff_of_true (own_invalidQuote _)
            ⟨hprice, hliquidity, fun h => absurd h hpos, fun h => absurd h hpos⟩
  · obtain ⟨message, hmessage⟩ := getSwapQuote_of_not_accepted lessSlippage haccepted
    have hrefused : getSwapQuote lessSlippage d = .error (invalidQuote message) :=
      hmessage d.poolState.ticks
    rw [hrefused, onlyOwnErrors_error]
    exact iff_of_true (own_invalidQuote message) (.inl haccepted)

/-! ### Accepted requests that throw an exception of the language -/

/-- A slippage of half a basis point. -/
def halfBasisPoint : LocalSwapQuoteParams :=
  { atOne.withTicks (some [below]) with slippage := some (1 / 2) }

/-- A liquidity that is no whole number. -/
def fractionalLiquidity : LocalSwapQuoteParams :=
  { atOne with poolState := { atOne.poolState with liquidity := "1.5e6" } }

/-- A pool without a price. -/
def withoutPrice : LocalSwapQuoteParams :=
  { atOne with poolState := { atOne.poolState with sqrtPriceX96 := "0", ticks := some [below] } }

/-- **A `RangeError`, a `SyntaxError` and a division by zero.** -/
theorem language_exceptions :
    ¬ OnlyOwnErrors (getSwapQuote keptBps halfBasisPoint) ∧
      ¬ OnlyOwnErrors (getSwapQuote keptBps fractionalLiquidity) ∧
      ¬ OnlyOwnErrors (getSwapQuote keptBps withoutPrice) := by
  have hslippage : getSwapQuote keptBps halfBasisPoint = .error
      (.rangeError "cannot be converted to a BigInt because it is not an integer") := by
    decide +kernel
  have hliquidity : getSwapQuote keptBps fractionalLiquidity
      = .error (.syntaxError "Cannot convert 1.5e6 to a BigInt") := by decide +kernel
  have hprice : getSwapQuote keptBps withoutPrice = .error (.rangeError "Division by zero") := by
    decide +kernel
  rw [hslippage, hliquidity, hprice, onlyOwnErrors_error, onlyOwnErrors_error, onlyOwnErrors_error]
  exact ⟨not_own_rangeError _, not_own_syntaxError _, not_own_rangeError _⟩

end Swyft.Sdk
