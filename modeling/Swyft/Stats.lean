import Swyft.Indexer.Model
import Swyft.JsNumber
import Swyft.Lib.Checked

/-!
# The value of swaps in dollars

The indexer stores with every swap its fee, as a text: the one of the event, or the first amount
times the fee tier of the pool, multiplied in floating point. The statistics worker reads the
amounts and the fee of each swap back with `usdAmount` of `apps/api/src/stats/volume-metrics.ts`,
which takes digits only, and throws otherwise; then nothing is computed for the pool.

Decimals are whole numbers, being a column of integers.

## Main definitions

* `feeOf` — how `resolveFeeAmount` derives a fee
* `usdAmount`, `calculateSwapVolumeUsd`, `calculateSwapFeesUsd` — the source functions
* `volumeMetrics` — the sums of `StatsWorker.process`

## Main results

* `swap_accepted_iff` — which rows of the indexer the worker can read
-/

namespace Swyft.Stats

open Checked Js Indexer

/-! ### The writer -/

/-- The fee of an amount in a pool of a fee tier. -/
def derivedNumber (amount0 : String) (feeTier : ℤ) : Number :=
  (toNumber amount0).abs.mul ((Number.ofRat feeTier).divPos 1000000)

/-- The text of a derived fee. -/
def feeOf (amount0 : String) (feeTier : ℤ) : String :=
  let fee := derivedNumber amount0 feeTier
  if fee.isFinite then String.ofList fee.toText else "0"

/-! ### The reader -/

/-- `/^-?\d+$/.test(text)`. -/
def isInteger (text : String) : Bool :=
  match text.toList with
  | '-' :: cs => cs ≠ [] ∧ cs.all Char.isDigit
  | cs => cs ≠ [] ∧ cs.all Char.isDigit

/-- The product of `usdAmount`. -/
def usdValue (rawAmount : String) (decimals : ℤ) (priceUsd : Number) : Number :=
  let raw := (bigInt rawAmount).getD 0
  ((Number.ofRat (if raw < 0 then -raw else raw)).divPos (10 ^ decimals)).mul priceUsd

/-- `priceUsd > 0`, for a finite price. -/
def isPrice : Number → Bool
  | .finite q => 0 < q
  | _ => false

/-- `usdAmount`. -/
def usdAmount (rawAmount : String) (decimals : ℤ) (priceUsd : Number) : Except String Number := do
  require (0 ≤ decimals ∧ decimals ≤ 18) "Token decimals are invalid"
  require (isPrice priceUsd) "Token USD price is invalid"
  require (isInteger rawAmount) "Swap amount is invalid"
  let value := usdValue rawAmount decimals priceUsd
  require value.isFinite "Swap USD amount is invalid"
  pure value

/-- `calculateSwapVolumeUsd`. -/
def calculateSwapVolumeUsd (swap : SwapRow) (decimals0 decimals1 : ℤ) (price0 price1 : Number) :
    Except String Number := do
  let value0 ← usdAmount swap.amount0 decimals0 price0
  let value1 ← usdAmount swap.amount1 decimals1 price1
  pure (value0.add value1)

/-- `calculateSwapFeesUsd`. -/
def calculateSwapFeesUsd (feeAmount0 : String) (decimals0 : ℤ) (price0 : Number) :
    Except String Number :=
  usdAmount feeAmount0 decimals0 price0

/-- The sum of a number for every swap. -/
def sumOf (swaps : List SwapRow) (value : SwapRow → Except String Number) :
    Except String Number :=
  swaps.foldlM (fun sum s => do
    let v ← value s
    pure (sum.add v)) (.finite 0)

/-- `volume24h`, `volume7d` and `fees24h` of `StatsWorker.process`. -/
def volumeMetrics (swaps24h swapsIn7d : List SwapRow) (decimals0 decimals1 : ℤ)
    (priceA priceB : Number) : Except String (Number × Number × Number) := do
  let volume24h ← sumOf swaps24h fun s =>
    calculateSwapVolumeUsd s decimals0 decimals1 priceA priceB
  let volume7d ← sumOf swapsIn7d fun s =>
    calculateSwapVolumeUsd s decimals0 decimals1 priceA priceB
  let fees24h ← sumOf swaps24h fun s => calculateSwapFeesUsd s.feeAmount decimals0 priceA
  require (volume24h.isFinite ∧ volume7d.isFinite ∧ fees24h.isFinite)
    "Computed volume metrics are invalid"
  pure (volume24h, volume7d, fees24h)

/-! ### Which texts are read -/

section Texts

theorem not_allDigits_negative (cs : List Char) : ¬ AllDigits ('-' :: cs) := fun h =>
  absurd (h.2 '-' List.mem_cons_self) (by decide)

theorem isInteger_iff {text : String} :
    isInteger text ↔ AllDigits text.toList ∨ ∃ cs, text.toList = '-' :: cs ∧ AllDigits cs := by
  rw [isInteger]
  split
  case h_1 cs hcs =>
    rw [hcs]
    simp [AllDigits]
  case h_2 hcs =>
    rw [or_iff_left (by rintro ⟨cs, h, -⟩; exact hcs cs h)]
    simp [AllDigits]

variable {q : ℚ}

/-- A number that is not zero is written as its size is, after its sign. -/
theorem isInteger_toText_iff (hq : q ≠ 0) :
    isInteger (String.ofList (Number.finite q).toText) ↔ AllDigits (positiveText |q|) := by
  rw [isInteger_iff, String.toList_ofList, Number.toText, if_neg hq]
  split
  case isTrue hneg =>
    rw [abs_of_neg hneg]
    simp [not_allDigits_negative]
  case isFalse hneg =>
    have hpos : 0 < q := lt_of_le_of_ne (not_lt.mp hneg) hq.symm
    rw [abs_of_pos hpos]
    simp [positiveText_ne_negative hpos]

theorem den_eq_one_iff : q.den = 1 ↔ ∃ m : ℤ, |q| = m := by
  constructor
  · intro h
    refine ⟨|q.num|, ?_⟩
    rw [Int.cast_abs, (Rat.den_eq_one_iff q).mp h]
  · rintro ⟨m, hm⟩
    rcases abs_eq_abs.mp (hm.trans (abs_of_nonneg (hm ▸ abs_nonneg q)).symm) with rfl | rfl
    · exact Rat.den_intCast m
    · rw [Rat.den_neg_eq_den]
      exact Rat.den_intCast m

/-- **A number is written as an integer if and only if it is whole and less than `10 ^ 21` in
size.** -/
theorem isInteger_toText_iff_whole (hdouble : Doubles.round |q| = |q|) :
    isInteger (String.ofList (Number.finite q).toText) ↔ q.den = 1 ∧ |q| < 10 ^ 21 := by
  rcases eq_or_ne q 0 with rfl | hq
  · decide
  · rw [isInteger_toText_iff hq, allDigits_positiveText_iff (abs_pos.mpr hq) hdouble,
      den_eq_one_iff]

/-- What is written as an integer is read as the number again, but for the sign. -/
theorem round_bigInt_toText
    (h : isInteger (String.ofList (Number.finite q).toText)) :
    Doubles.round |(((bigInt (String.ofList (Number.finite q).toText)).getD 0 : ℤ) : ℚ)| = |q| := by
  rcases eq_or_ne q 0 with rfl | hq
  · rw [show (bigInt (String.ofList (Number.finite 0).toText)).getD 0 = 0 by decide]
    simpa using Doubles.round_zero
  · have hall := (isInteger_toText_iff hq).mp h
    have hread := round_ofDigitChars_positiveText (abs_pos.mpr hq) hall
    rw [Number.toText, if_neg hq]
    split
    case isTrue hneg =>
      rw [abs_of_neg hneg] at hall hread ⊢
      rw [bigInt_of_negative String.toList_ofList hall]
      simpa using hread
    case isFalse hneg =>
      have hpos : 0 < q := lt_of_le_of_ne (not_lt.mp hneg) hq.symm
      rw [abs_of_pos hpos] at hall hread ⊢
      rw [bigInt_of_allDigits (by rwa [String.toList_ofList])]
      simpa using hread

end Texts

/-! ### What can be read -/

variable {decimals decimals0 decimals1 : ℤ} {price price0 price1 : Number} {p p0 p1 : ℚ}
  {raw : String} {swap : SwapRow} {t : Tables} {d : SwapProcessedJobData}

theorem usdAmount_isOk_iff (hdecimals : 0 ≤ decimals ∧ decimals ≤ 18) (hprice : isPrice price) :
    (∃ value, usdAmount raw decimals price = .ok value) ↔
      isInteger raw ∧ (usdValue raw decimals price).isFinite := by
  simp only [usdAmount, bind_eq_ok, require_eq_ok, pure_eq_ok]
  constructor
  · rintro ⟨value, -, -, -, -, -, hinteger, -, hfinite, -⟩
    exact ⟨hinteger, hfinite⟩
  · rintro ⟨hinteger, hfinite⟩
    exact ⟨_, (), hdecimals, (), hprice, (), hinteger, (), hfinite, rfl⟩

/-- The two amounts and the fee of a swap can be read. -/
def Accepted (swap : SwapRow) (decimals0 decimals1 : ℤ) (price0 price1 : Number) : Prop :=
  (∃ value, calculateSwapVolumeUsd swap decimals0 decimals1 price0 price1 = .ok value) ∧
    ∃ value, calculateSwapFeesUsd swap.feeAmount decimals0 price0 = .ok value

theorem accepted_iff :
    Accepted swap decimals0 decimals1 price0 price1 ↔
      (∃ value, usdAmount swap.amount0 decimals0 price0 = .ok value) ∧
      (∃ value, usdAmount swap.amount1 decimals1 price1 = .ok value) ∧
      ∃ value, usdAmount swap.feeAmount decimals0 price0 = .ok value := by
  rw [Accepted, ← and_assoc]
  refine and_congr_left' ?_
  simp only [calculateSwapVolumeUsd, bind_eq_ok, pure_eq_ok]
  constructor
  · rintro ⟨-, value0, h0, value1, h1, -⟩
    exact ⟨⟨value0, h0⟩, value1, h1⟩
  · rintro ⟨⟨value0, h0⟩, value1, h1⟩
    exact ⟨_, value0, h0, value1, h1, rfl⟩

/-! ### Sums over swaps -/

/-- Where a sum is computed, every swap has its number. -/
theorem exists_value_of_sumOf {swaps : List SwapRow} {value : SwapRow → Except String Number}
    {sum : Number} (h : sumOf swaps value = .ok sum) : ∀ s ∈ swaps, ∃ v, value s = .ok v := by
  have hfold (l : List SwapRow) (start : Number)
      (hl : l.foldlM (fun sum s => do
        let v ← value s
        pure (sum.add v)) start = .ok sum) : ∀ s ∈ l, ∃ v, value s = .ok v := by
    induction l generalizing start with
    | nil => exact fun s hs => absurd hs List.not_mem_nil
    | cons s l ih =>
      simp only [List.foldlM_cons, bind_eq_ok] at hl
      obtain ⟨next, ⟨v, hv, -⟩, hrest⟩ := hl
      intro s' hs'
      rcases List.mem_cons.mp hs' with rfl | hs'
      · exact ⟨v, hv⟩
      · exact ih next hrest s' hs'
  exact hfold swaps _ h

/-- Where every swap has its number, the sum is computed. -/
theorem exists_sumOf {swaps : List SwapRow} {value : SwapRow → Except String Number}
    (h : ∀ s ∈ swaps, ∃ v, value s = .ok v) : ∃ sum, sumOf swaps value = .ok sum := by
  have hfold (l : List SwapRow) (start : Number) (hl : ∀ s ∈ l, ∃ v, value s = .ok v) :
      ∃ sum, l.foldlM (fun sum s => do
        let v ← value s
        pure (sum.add v)) start = .ok sum := by
    induction l generalizing start with
    | nil => exact ⟨start, rfl⟩
    | cons s l ih =>
      obtain ⟨v, hv⟩ := hl s List.mem_cons_self
      rw [List.foldlM_cons, hv]
      exact ih (start.add v) fun s' hs' => hl s' (List.mem_cons_of_mem _ hs')
  exact hfold swaps _ h

/-- **A swap of the day that cannot be read stops the update of its pool.** -/
theorem volumeMetrics_ne_ok {swaps24h swapsIn7d : List SwapRow} (hswap : swap ∈ swaps24h)
    (h : ¬ Accepted swap decimals0 decimals1 price0 price1)
    (metrics : Number × Number × Number) :
    volumeMetrics swaps24h swapsIn7d decimals0 decimals1 price0 price1 ≠ .ok metrics := by
  intro hok
  simp only [volumeMetrics, bind_eq_ok] at hok
  obtain ⟨volume24h, hvolume, -, -, fees24h, hfees, -⟩ := hok
  exact h ⟨exists_value_of_sumOf hvolume swap hswap, exists_value_of_sumOf hfees swap hswap⟩

/-- If all swaps can be read, only a sum that is too large stops it. -/
theorem volumeMetrics_error_eq {swaps24h swapsIn7d : List SwapRow} {message : String}
    (h24 : ∀ s ∈ swaps24h, Accepted s decimals0 decimals1 price0 price1)
    (h7 : ∀ s ∈ swapsIn7d, Accepted s decimals0 decimals1 price0 price1)
    (h : volumeMetrics swaps24h swapsIn7d decimals0 decimals1 price0 price1 = .error message) :
    message = "Computed volume metrics are invalid" := by
  obtain ⟨volume24h, hvolume⟩ := exists_sumOf fun s hs => (h24 s hs).1
  obtain ⟨volume7d, hvolume7⟩ := exists_sumOf fun s hs => (h7 s hs).1
  obtain ⟨fees24h, hfees⟩ := exists_sumOf fun s hs => (h24 s hs).2
  rw [volumeMetrics, hvolume, ok_bind, hvolume7, ok_bind, hfees, ok_bind] at h
  rcases bind_eq_error.mp h with h | ⟨-, -, h⟩
  · exact (require_eq_error.mp h).2.symm
  · exact absurd h pure_ne_error

/-! ### The range of the doubles -/

/-- No step from raw units to dollars leaves the range of the doubles. -/
def Fits (units : ℚ) (decimals : ℤ) (price : ℚ) : Prop :=
  let whole := Doubles.round |units|
  let amount := Doubles.round (whole / 10 ^ decimals)
  whole < 2 ^ 1024 ∧ amount < 2 ^ 1024 ∧ Doubles.round (amount * price) < 2 ^ 1024

theorem ofRat_of_nonneg {q : ℚ} (hq : 0 ≤ q) :
    Number.ofRat q = if Doubles.round q < 2 ^ 1024 then .finite (Doubles.round q)
      else .infinite false := by
  rw [Number.ofRat, abs_of_nonneg (Doubles.round_nonneg hq), decide_eq_false (not_lt.mpr hq)]

theorem isFinite_usdValue_iff (hp : 0 < p) :
    (usdValue raw decimals (.finite p)).isFinite ↔
      Fits ((bigInt raw).getD 0 : ℤ) decimals p := by
  have habs (z : ℤ) : (if z < 0 then -(z : ℚ) else z) = |(z : ℚ)| := by
    split
    case isTrue h => rw [abs_of_neg (by exact_mod_cast h)]
    case isFalse h => rw [abs_of_nonneg (by exact_mod_cast not_lt.mp h)]
  set z := (bigInt raw).getD 0 with hz
  have hwhole : 0 ≤ Doubles.round |(z : ℚ)| := Doubles.round_nonneg (abs_nonneg _)
  have hquotient : 0 ≤ Doubles.round |(z : ℚ)| / 10 ^ decimals :=
    div_nonneg hwhole (zpow_nonneg (by norm_num) _)
  have hamount := Doubles.round_nonneg hquotient
  rw [usdValue, ← hz, habs, ofRat_of_nonneg (abs_nonneg _), Fits]
  by_cases h1 : Doubles.round |(z : ℚ)| < 2 ^ 1024
  · rw [if_pos h1, Number.divPos, ofRat_of_nonneg hquotient]
    by_cases h2 : Doubles.round (Doubles.round |(z : ℚ)| / 10 ^ decimals) < 2 ^ 1024
    · rw [if_pos h2, Number.mul, ofRat_of_nonneg (mul_nonneg hamount hp.le)]
      by_cases h3 : Doubles.round (Doubles.round (Doubles.round |(z : ℚ)| / 10 ^ decimals) * p)
          < 2 ^ 1024
      · simp [h1, h2, h3, Number.isFinite]
      · simp [h3, Number.isFinite]
    · simp [h2, Number.mul, Number.isFinite, hp.ne']
  · simp [h1, Number.divPos, Number.mul, Number.isFinite, hp.ne']

/-! ### The fee -/

/-- A finite product has been rounded. -/
theorem exists_round_of_mul {a b : Number} {q : ℚ} (h : a.mul b = .finite q) :
    ∃ r, q = Doubles.round r := by
  have hofRat (r : ℚ) (h : Number.ofRat r = .finite q) : ∃ r, q = Doubles.round r := by
    rw [Number.ofRat] at h
    split at h
    case isTrue => exact ⟨r, (Number.finite.inj h).symm⟩
    case isFalse => exact absurd h (by simp)
  cases a with
  | nan => cases b <;> exact absurd h (by simp [Number.mul])
  | infinite s =>
    cases b with
    | finite r =>
      rw [Number.mul] at h
      split at h <;> exact absurd h (by simp)
    | infinite t => exact absurd h (by simp [Number.mul])
    | nan => exact absurd h (by simp [Number.mul])
  | finite r =>
    cases b with
    | finite r' => exact hofRat _ h
    | infinite t =>
      rw [Number.mul] at h
      split at h <;> exact absurd h (by simp)
    | nan => exact absurd h (by simp [Number.mul])

/-- The size of what has been rounded is a double. -/
theorem round_abs_round (r : ℚ) : Doubles.round |Doubles.round r| = |Doubles.round r| := by
  obtain ⟨m, e, hm, he, hround⟩ := Doubles.exists_round r
  have hsize : |Doubles.round r| = ((|m| : ℤ) : ℚ) * 2 ^ e := by
    have hstep : (0 : ℚ) < 2 ^ e := zpow_pos two_pos e
    rw [hround, abs_mul, abs_of_pos hstep, Int.cast_abs]
  rw [hsize, Doubles.round_mul_two_zpow (by rwa [abs_abs]) he]

/-- The fee of a swap in raw units: a fee that comes with the event must be a whole number, and so
must one that is derived, of less than twenty-two digits. -/
def feeUnits (t : Tables) (d : SwapProcessedJobData) : Option ℚ :=
  let derived : Option ℚ :=
    match t.pools d.poolId with
    | none => some 0
    | some pool =>
      match derivedNumber d.amount0 pool.feeTier with
      | .finite q => if q.den = 1 ∧ |q| < 10 ^ 21 then some q else none
      | _ => some 0
  match d.feeAmount with
  | some fee =>
    if fee ≠ "" then if isInteger fee then some ((bigInt fee).getD 0 : ℤ) else none else derived
  | none => derived

/-- A text is the one of a number of raw units, if of any. -/
def TextOf (text : String) (units : Option ℚ) : Prop :=
  (isInteger text ↔ units.isSome) ∧
    ∀ u ∈ units, Doubles.round |((bigInt text).getD 0 : ℤ)| = Doubles.round |u|

theorem textOf_zero : TextOf "0" (some 0) := by
  refine ⟨by decide, fun u hu => ?_⟩
  obtain rfl := Option.some.inj hu
  rw [show (bigInt "0").getD 0 = 0 by decide, Int.cast_zero]

/-- What `feeOf` writes. -/
theorem textOf_feeOf (amount0 : String) (feeTier : ℤ) :
    TextOf (feeOf amount0 feeTier) (match derivedNumber amount0 feeTier with
      | .finite q => if q.den = 1 ∧ |q| < 10 ^ 21 then some q else none
      | _ => some 0) := by
  rw [feeOf]
  cases hfee : derivedNumber amount0 feeTier with
  | nan => exact textOf_zero
  | infinite negative => exact textOf_zero
  | finite q =>
    obtain ⟨r, rfl⟩ := exists_round_of_mul hfee
    have hwhole := isInteger_toText_iff_whole (round_abs_round r)
    show TextOf (String.ofList (Number.finite (Doubles.round r)).toText)
      (if (Doubles.round r).den = 1 ∧ |Doubles.round r| < 10 ^ 21 then _ else _)
    split
    case isTrue h =>
      refine ⟨iff_of_true (hwhole.mpr h) rfl, fun u hu => ?_⟩
      obtain rfl := Option.some.inj hu
      rw [round_bigInt_toText (hwhole.mpr h), round_abs_round]
    case isFalse h =>
      exact ⟨iff_of_false (mt hwhole.mp h) (by simp), fun u hu => absurd hu (by simp)⟩

/-- **What the indexer writes as a fee.** -/
theorem textOf_resolveFeeAmount (t : Tables) (d : SwapProcessedJobData) :
    TextOf (resolveFeeAmount feeOf t d) (feeUnits t d) := by
  have hderived : TextOf (derivedFee feeOf t d) (match t.pools d.poolId with
      | none => some 0
      | some pool =>
        match derivedNumber d.amount0 pool.feeTier with
        | .finite q => if q.den = 1 ∧ |q| < 10 ^ 21 then some q else none
        | _ => some 0) := by
    rw [derivedFee]
    cases t.pools d.poolId with
    | none => exact textOf_zero
    | some pool => exact textOf_feeOf d.amount0 pool.feeTier
  rw [resolveFeeAmount, feeUnits]
  cases d.feeAmount with
  | none => exact hderived
  | some fee =>
    show TextOf (if fee ≠ "" then fee else derivedFee feeOf t d) (if fee ≠ "" then _ else _)
    by_cases hfee : fee ≠ ""
    · rw [if_pos hfee, if_pos hfee]
      by_cases hinteger : isInteger fee
      · rw [if_pos hinteger]
        refine ⟨iff_of_true hinteger rfl, fun u hu => ?_⟩
        rw [← Option.some.inj hu]
      · rw [if_neg hinteger]
        exact ⟨iff_of_false hinteger (by simp), fun u hu => absurd hu (by simp)⟩
    · rw [if_neg hfee, if_neg hfee]
      exact hderived

/-! ### Swaps of the indexer -/

/-- The row of a swap that was not there. -/
theorem eq_swapRow {fee : String} {row : SwapRow} (hnew : t.swaps d.eventId = none)
    (h : (upsertSwap t d fee).swaps d.eventId = some row) : row = swapRow d fee := by
  rw [upsertSwap, hnew] at h
  cases hpool : t.pools d.poolId with
  | none =>
    rw [hpool] at h
    exact absurd (hnew.symm.trans h) (by simp)
  | some pool =>
    rw [hpool] at h
    have hrow : Function.update t.swaps d.eventId (some (swapRow d fee)) d.eventId = some row := h
    rw [Function.update_self] at hrow
    exact (Option.some.inj hrow).symm

/-- **A swap that the indexer stored can be valued if and only if its fee is a whole number of raw
units and no value leaves the range of the doubles**; otherwise no statistics are computed for its
pool while it counts. The fee was resolved from the tables `t`, and the row written to the tables
`t'`, whatever other jobs did meanwhile. -/
theorem swap_accepted_iff (t t' : Tables) (d : SwapProcessedJobData) (row : SwapRow)
    (decimals0 decimals1 : ℤ) (p0 p1 : ℚ) (hamount0 : isInteger d.amount0)
    (hamount1 : isInteger d.amount1) (hdecimals0 : 0 ≤ decimals0 ∧ decimals0 ≤ 18)
    (hdecimals1 : 0 ≤ decimals1 ∧ decimals1 ≤ 18) (hp0 : 0 < p0) (hp1 : 0 < p1)
    (hnew : t'.swaps d.eventId = none)
    (hrow : (upsertSwap t' d (resolveFeeAmount feeOf t d)).swaps d.eventId = some row) :
    (Accepted row decimals0 decimals1 (.finite p0) (.finite p1) ↔
      Fits ((bigInt d.amount0).getD 0 : ℤ) decimals0 p0 ∧
        Fits ((bigInt d.amount1).getD 0 : ℤ) decimals1 p1 ∧
        ∃ units, feeUnits t d = some units ∧ Fits units decimals0 p0) ∧
      (¬ Accepted row decimals0 decimals1 (.finite p0) (.finite p1) →
        ∀ swaps24h swapsIn7d, row ∈ swaps24h → ∀ metrics,
          volumeMetrics swaps24h swapsIn7d decimals0 decimals1 (.finite p0) (.finite p1)
            ≠ .ok metrics) := by
  obtain rfl := eq_swapRow hnew hrow
  refine ⟨?_, fun h swaps24h swapsIn7d hmem => volumeMetrics_ne_ok hmem h⟩
  have hprice0 : isPrice (.finite p0) := decide_eq_true hp0
  have hprice1 : isPrice (.finite p1) := decide_eq_true hp1
  obtain ⟨hsome, hunits⟩ := textOf_resolveFeeAmount t d
  rw [accepted_iff, usdAmount_isOk_iff hdecimals0 hprice0, usdAmount_isOk_iff hdecimals1 hprice1,
    usdAmount_isOk_iff hdecimals0 hprice0, isFinite_usdValue_iff hp0, isFinite_usdValue_iff hp1,
    isFinite_usdValue_iff hp0]
  show (isInteger d.amount0 ∧ _) ∧ (isInteger d.amount1 ∧ _) ∧
    (isInteger (resolveFeeAmount feeOf t d) ∧ _) ↔ _
  rw [hsome]
  simp only [hamount0, hamount1, true_and]
  refine and_congr_right' (and_congr_right' ?_)
  cases hfee : feeUnits t d with
  | none => simp
  | some units =>
    have heq := hunits units hfee
    simp only [Option.isSome_some, true_and, Option.some.injEq, exists_eq_left', Fits]
    show Fits ((bigInt (resolveFeeAmount feeOf t d)).getD 0 : ℤ) decimals0 p0 ↔ _
    rw [Fits, heq]

/-! ### A small swap -/

/-- A pool with a fee of 3000 parts per million. -/
def onePool : Tables :=
  { Tables.empty with
    pools := fun id => if id = "P" then some ⟨"CUSDC", "CXLM", 3000, "1", 0, "10"⟩ else none }

/-- A swap of an amount for as much of the other token. -/
def swapOf (amount : String) : SwapProcessedJobData :=
  ⟨"e", none, "P", "G1", "G1", amount, "-" ++ amount, "1", "10", 0, none, none, none⟩

theorem resolveFeeAmount_hundred : resolveFeeAmount feeOf onePool (swapOf "100") = "0.3" := by
  decide +kernel

/-- **The fee of a swap of a hundred units is not whole**, and its pool is not updated. -/
theorem not_accepted_hundred :
    ∃ row, (upsertSwap onePool (swapOf "100")
        (resolveFeeAmount feeOf onePool (swapOf "100"))).swaps "e" = some row ∧
      isInteger row.amount0 ∧ isInteger row.amount1 ∧ row.feeAmount = "0.3" ∧
      ¬ Accepted row 6 6 (.finite 1) (.finite 1) ∧
      ∀ metrics, volumeMetrics [row] [row] 6 6 (.finite 1) (.finite 1) ≠ .ok metrics := by
  have hnot : ¬ Accepted (swapRow (swapOf "100") "0.3") 6 6 (.finite 1) (.finite 1) := by
    intro h
    have hread : ∃ value, usdAmount "0.3" 6 (.finite 1) = .ok value := (accepted_iff.mp h).2.2
    have hinteger := ((usdAmount_isOk_iff (by decide) (by decide)).mp hread).1
    revert hinteger
    decide
  rw [resolveFeeAmount_hundred]
  exact ⟨swapRow (swapOf "100") "0.3", rfl, by decide, by decide, rfl, hnot,
    volumeMetrics_ne_ok List.mem_cons_self hnot⟩

theorem swap_accepted_iff_million :
    Accepted (swapRow (swapOf "1000000") "3000") 6 6 (.finite 1) (.finite 1) ↔
      Fits ((bigInt "1000000").getD 0 : ℤ) 6 1 ∧ Fits ((bigInt "-1000000").getD 0 : ℤ) 6 1 ∧
        ∃ units, feeUnits onePool (swapOf "1000000") = some units ∧ Fits units 6 1 :=
  (swap_accepted_iff onePool onePool (swapOf "1000000") _ 6 6 1 1 (by decide) (by decide)
    (by decide) (by decide) one_pos one_pos rfl (by
      rw [show resolveFeeAmount feeOf onePool (swapOf "1000000") = "3000" by decide +kernel]
      rfl)).1

end Swyft.Stats
