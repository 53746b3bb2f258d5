import Swyft.MathLib.Amounts
import Mathlib.Data.Int.Interval
import Mathlib.Data.Int.ConditionallyCompleteOrder

/-!
# The price model of the mathematics library

`tick_to_sqrt_price` raises 10001 to the tick in whole numbers of 128 bits, divides by ten thousand
once, and takes the square root of the quotient. The power overflows from the eighth tick on; before
that its scale changes with the tick, so that the prices do not even start at the unit.
`sqrt_price_to_tick` searches the whole range and stops at the first middle tick that has no price.

## Main definitions

* `tickToSqrtPrice`, `sqrtPriceToTick` — the source functions
* `Priced` — the ticks that have a price
* `Rises` — two ticks have prices, and the second one is higher

## Main results

* `integerSqrt_eq` — the search for the square root finds it
* `power_eq_ok` — a power that is returned is exact
* `tick_conversions_iff` — what works of the conversions
-/

namespace Swyft.MathLib

open Checked
open ClPool (Q96 minTick maxTick)

/-! ### The source functions -/

/-- The loop of `power`, with a number of rounds that covers every exponent. -/
def powerLoop (divisor : ℕ) : (rounds : ℕ) → (result basePow exp : ℕ) → Res ℕ
  | 0, result, _, _ => pure result
  | rounds + 1, result, basePow, exp =>
    if exp = 0 then pure result
    else do
      let result ← (if exp % 2 = 1 then checkedMul result basePow else pure result)
      let basePow ← checkedMul basePow basePow
      let bound ← divU128 u128Max divisor
      if bound < result then .error (mathError .overflow)
      else powerLoop divisor rounds result basePow (exp / 2)

/-- `power(base, exponent, divisor)`. -/
def power (base exponent divisor : ℕ) : Res ℕ :=
  if exponent = 0 then pure divisor
  else do
    let result ← powerLoop divisor 128 1 base exponent
    checkedDiv result divisor

/-- The loop of `integer_sqrt`. A square that does not fit counts as the largest number. -/
def integerSqrtLoop (n : ℕ) : (rounds : ℕ) → (low high result : ℕ) → Res ℕ
  | 0, _, _, result => pure result
  | rounds + 1, low, high, result =>
    if low ≤ high then do
      let sum ← addU128 low high
      let mid := sum / 2
      let midSquared := satMul 128 mid mid
      if midSquared = n then pure mid
      else if midSquared < n then do
        let above ← addU128 mid 1
        integerSqrtLoop n rounds above high mid
      else do
        let below ← subU128 mid 1
        integerSqrtLoop n rounds low below result
    else pure result

/-- `integer_sqrt`. -/
def integerSqrt (n : ℕ) : Res ℕ :=
  if n = 0 then pure 0
  else if n = 1 then pure 1
  else integerSqrtLoop n 128 1 n 0

/-- `tick_to_sqrt_price`. -/
def tickToSqrtPrice (tick : ℤ) : Res ℕ :=
  if tick < minTick ∨ maxTick < tick then .error (mathError .invalidTick)
  else if tick = minTick then pure 4295128739
  else if tick = maxTick then pure u128Max
  else do
    let posResult ← power 10001 tick.natAbs 10000
    let result ← (
      if 0 ≤ tick then pure posResult
      else if posResult = 0 then .error (mathError .divisionByZero)
      else checkedDiv Q96 posResult)
    let sqrtResult ← integerSqrt result
    checkedMul sqrtResult (Q96 / 10000)

/-- The end of `sqrt_price_to_tick`: which of the two ticks is closer. -/
def closestTick (sqrtPrice : ℕ) (low high : ℤ) : Res ℤ :=
  if maxTick < low then pure maxTick
  else if high < minTick then pure minTick
  else do
    let lowPrice ← tickToSqrtPrice low
    let highPrice ← tickToSqrtPrice high
    let diffLow := if sqrtPrice < lowPrice then lowPrice - sqrtPrice else sqrtPrice - lowPrice
    let diffHigh := if sqrtPrice < highPrice then highPrice - sqrtPrice else sqrtPrice - highPrice
    if diffLow < diffHigh then pure low else pure high

/-- The binary search of `sqrt_price_to_tick`. The middle is rounded towards zero. -/
def tickSearch (sqrtPrice : ℕ) : (rounds : ℕ) → (low high : ℤ) → Res ℤ
  | 0, low, high => closestTick sqrtPrice low high
  | rounds + 1, low, high =>
    if low ≤ high then do
      let mid := (low + high).tdiv 2
      let midSqrtPrice ← tickToSqrtPrice mid
      if midSqrtPrice = sqrtPrice then pure mid
      else if midSqrtPrice < sqrtPrice then tickSearch sqrtPrice rounds (mid + 1) high
      else tickSearch sqrtPrice rounds low (mid - 1)
    else closestTick sqrtPrice low high

/-- `sqrt_price_to_tick`, with as many rounds as there are ticks. -/
def sqrtPriceToTick (sqrtPrice : ℕ) : Res ℤ :=
  if sqrtPrice = 0 then .error (mathError .priceOutOfBounds)
  else do
    let ratio ← (
      if Q96 ≤ sqrtPrice then checkedDiv sqrtPrice Q96
      else .error (mathError .priceOutOfBounds))
    if ratio = 0 then .error (mathError .priceOutOfBounds)
    else tickSearch sqrtPrice (maxTick - minTick + 1).toNat minTick maxTick

/-! ### The square root -/

/-- A square that is cut off counts as the largest number, and is compared with a smaller one. -/
theorem satMul_self_eq_iff {n mid : ℕ} (hn : n < u128Max) :
    satMul 128 mid mid = n ↔ mid * mid = n := by
  have hsquare : satMul 128 mid mid = min (mid * mid) u128Max := rfl
  omega

theorem satMul_self_lt_iff {n mid : ℕ} (hn : n < u128Max) :
    satMul 128 mid mid < n ↔ mid * mid < n := by
  have hsquare : satMul 128 mid mid = min (mid * mid) u128Max := rfl
  omega

theorem lt_of_mul_self_lt {n mid : ℕ} (hn : n < u128Max) (h : mid * mid < n) : mid < 2 ^ 64 := by
  have hmax : u128Max = 2 ^ 128 - 1 := rfl
  by_contra hbig
  have := Nat.mul_le_mul (not_lt.mp hbig) (not_lt.mp hbig)
  omega

/-- Between a number below the root and one above it, the loop ends at the root. -/
theorem integerSqrtLoop_eq {n : ℕ} (hn : n < u128Max) :
    ∀ {rounds low high}, 0 < low → low ≤ high + 1 → low + high < 2 ^ 128 →
      high + 1 - low < 2 ^ rounds → (low - 1) * (low - 1) ≤ n → n < (high + 1) * (high + 1) →
        integerSqrtLoop n rounds low high (low - 1) = .ok n.sqrt := by
  have hend : ∀ {low high : ℕ}, high < low → low ≤ high + 1 → (low - 1) * (low - 1) ≤ n →
      n < (high + 1) * (high + 1) → low - 1 = n.sqrt := by
    intro low high hempty hle hlow hhigh
    obtain rfl : low = high + 1 := by omega
    exact Nat.eq_sqrt.mpr ⟨hlow, hhigh⟩
  intro rounds
  induction rounds with
  | zero =>
    intro low high hpos hle hsum hlen hlow hhigh
    rw [integerSqrtLoop, hend (by omega) hle hlow hhigh]
    rfl
  | succ rounds ih =>
    intro low high hpos hle hsum hlen hlow hhigh
    rw [integerSqrtLoop]
    split
    case isFalse hempty =>
      rw [hend (by omega) hle hlow hhigh]
      rfl
    case isTrue hrange =>
      have hadd : addU128 low high = .ok (low + high) := fitU_of_lt hsum
      rw [hadd, ok_bind]
      generalize hmid : (low + high) / 2 = mid
      rw [pow_succ] at hlen
      simp only [satMul_self_eq_iff hn, satMul_self_lt_iff hn]
      split
      case isTrue heq =>
        rw [← heq, Nat.sqrt_eq]
        rfl
      case isFalse hne =>
        split
        case isTrue hlt =>
          -- the root is at or above the middle
          have hsmall := lt_of_mul_self_lt hn hlt
          have hnext : addU128 mid 1 = .ok (mid + 1) := fitU_of_lt (by omega)
          rw [hnext, ok_bind]
          exact ih (Nat.succ_pos mid) (by omega) (by omega) (by omega)
            (by rw [Nat.add_sub_cancel]; omega) hhigh
        case isFalse hge =>
          have hprev : subU128 mid 1 = .ok (mid - 1) := subU_of_le (by omega)
          rw [hprev, ok_bind]
          exact ih hpos (by omega) (by omega) (by omega) hlow
            (by rw [Nat.sub_add_cancel (by omega)]; omega)

/-- `integer_sqrt` is the integer square root, except of the largest number. -/
theorem integerSqrt_eq {n : ℕ} (hn : n < u128Max) : integerSqrt n = .ok n.sqrt := by
  have hmax : u128Max = 2 ^ 128 - 1 := rfl
  rw [integerSqrt]
  split_ifs with hzero hone
  · rw [hzero]
    rfl
  · rw [hone]
    rfl
  · exact integerSqrtLoop_eq hn Nat.one_pos (by omega) (by omega) (by omega) (Nat.zero_le n)
      (by nlinarith)

/-! ### Powers -/

/-- A power that the loop returns is exact. -/
theorem powerLoop_eq_ok {divisor : ℕ} : ∀ {rounds result basePow exp r : ℕ}, exp < 2 ^ rounds →
    powerLoop divisor rounds result basePow exp = .ok r → r = result * basePow ^ exp := by
  intro rounds
  induction rounds with
  | zero =>
    intro result basePow exp r hexp h
    obtain rfl : exp = 0 := by omega
    rw [pow_zero, mul_one]
    exact (pure_eq_ok.mp h).symm
  | succ rounds ih =>
    intro result basePow exp r hexp h
    rw [powerLoop] at h
    split at h
    case isTrue hzero =>
      rw [hzero, pow_zero, mul_one]
      exact (pure_eq_ok.mp h).symm
    case isFalse hne =>
      obtain ⟨result', hresult, h⟩ := bind_eq_ok.mp h
      obtain ⟨squared, hsquared, h⟩ := bind_eq_ok.mp h
      obtain ⟨bound, -, h⟩ := bind_eq_ok.mp h
      obtain ⟨-, rfl⟩ := checkedMul_eq_ok.mp hsquared
      split at h
      case isTrue => cases h
      case isFalse =>
        have hrest := ih (by rw [pow_succ] at hexp; omega) h
        have hdigits := Nat.div_add_mod exp 2
        rw [hrest, ← pow_two, ← pow_mul]
        split at hresult
        case isTrue hodd =>
          obtain ⟨-, rfl⟩ := checkedMul_eq_ok.mp hresult
          nth_rewrite 2 [← hdigits]
          rw [hodd, pow_succ]
          ring
        case isFalse heven =>
          obtain rfl := pure_eq_ok.mp hresult
          nth_rewrite 2 [← hdigits]
          rw [show exp % 2 = 0 by omega, Nat.add_zero]

/-- **A power that is returned is exact**, up to the division. -/
theorem power_eq_ok {base exponent divisor r : ℕ} (hexp : exponent < 2 ^ 128)
    (h : power base exponent divisor = .ok r) :
    r = if exponent = 0 then divisor else base ^ exponent / divisor := by
  rw [power] at h
  split at h
  case isTrue hzero =>
    rw [if_pos hzero]
    exact (pure_eq_ok.mp h).symm
  case isFalse hne =>
    obtain ⟨result, hresult, hdiv⟩ := bind_eq_ok.mp h
    rw [if_neg hne, ← (checkedDiv_eq_ok.mp hdiv).2, powerLoop_eq_ok hexp hresult, one_mul]

/-- An overflow after a product is an overflow, whether the product fits or not. -/
theorem checkedMul_bind_overflow {α : Type} {a b : ℕ} {f : ℕ → Res α}
    (hf : ∀ c, f c = .error (mathError .overflow)) :
    (checkedMul a b >>= f) = .error (mathError .overflow) := by
  rw [checkedMul, fitU]
  split
  case isTrue => exact hf _
  case isFalse => rfl

/-- The base is squared once more than the exponent needs: where that overflows, so does the
power. -/
theorem powerLoop_overflow {divisor : ℕ} (hdivisor : 0 < divisor) :
    ∀ {k rounds result basePow exp : ℕ}, 2 ^ k ≤ exp → exp < 2 ^ rounds →
      2 ^ 128 ≤ basePow ^ 2 ^ (k + 1) →
        powerLoop divisor rounds result basePow exp = .error (mathError .overflow) := by
  intro k
  induction k with
  | zero =>
    intro rounds result basePow exp hk hexp hbig
    have hsquare : checkedMul basePow basePow = .error (mathError .overflow) :=
      fitU_of_ge (by rwa [zero_add, pow_one, pow_two] at hbig)
    cases rounds with
    | zero => omega
    | succ rounds =>
      rw [powerLoop, if_neg (by omega), hsquare]
      split
      case isTrue => exact checkedMul_bind_overflow fun _ => rfl
      case isFalse => rfl
  | succ k ih =>
    intro rounds result basePow exp hk hexp hbig
    have hpos := Nat.two_pow_pos k
    rw [pow_succ] at hk
    cases rounds with
    | zero => omega
    | succ rounds =>
      rw [pow_succ] at hexp
      have hrest (result' : ℕ) : (do
          let basePow ← checkedMul basePow basePow
          let bound ← divU128 u128Max divisor
          if bound < result' then .error (mathError .overflow)
          else powerLoop divisor rounds result' basePow (exp / 2) : Res ℕ)
            = .error (mathError .overflow) := by
        rw [checkedMul, fitU]
        split
        case isFalse => rfl
        case isTrue =>
          have hbound : divU128 u128Max divisor = .ok (u128Max / divisor) := divU_of_pos hdivisor
          rw [ok_bind, hbound, ok_bind]
          split
          · rfl
          · refine ih (by omega) (by omega) ?_
            rwa [← pow_two, ← pow_mul, ← pow_succ']
      rw [powerLoop, if_neg (by omega)]
      split
      case isTrue => exact checkedMul_bind_overflow hrest
      case isFalse => exact hrest result

/-- From the eighth power on, `power` overflows. -/
theorem power_overflow {exponent : ℕ} (hge : 8 ≤ exponent) (hexp : exponent < 2 ^ 128) :
    power 10001 exponent 10000 = .error (mathError .overflow) := by
  rw [power, if_neg (by omega), powerLoop_overflow (k := 3) (by decide) hge hexp (by decide)]
  rfl

/-! ### Ticks and prices -/

/-- The ticks that have a price. -/
def Priced (t : ℤ) : Prop :=
  t = minTick ∨ t = maxTick ∨ -7 ≤ t ∧ t ≤ 7 ∧ t ≠ -1

/-- Both ticks have a price, and that of the second one is higher. -/
def Rises (s t : ℤ) : Prop :=
  Yields (tickToSqrtPrice s) fun p => Yields (tickToSqrtPrice t) fun q => p < q

instance (s t : ℤ) : Decidable (Rises s t) := inferInstanceAs (Decidable (Yields _ _))

/-- A tick whose price is nearest to the given one, among all the ticks that have a price. -/
def Nearest (price : ℕ) (t : ℤ) : Prop :=
  (minTick ≤ t ∧ t ≤ maxTick) ∧ ∃ p, tickToSqrtPrice t = .ok p ∧
    ∀ s q, minTick ≤ s → s ≤ maxTick → tickToSqrtPrice s = .ok q →
      ((price : ℤ) - p).natAbs ≤ ((price : ℤ) - q).natAbs

/-- Far from zero, the power overflows. -/
theorem tickToSqrtPrice_far {t : ℤ} (hlo : minTick < t) (hhi : t < maxTick) (hfar : 8 ≤ t.natAbs) :
    tickToSqrtPrice t = .error (mathError .overflow) := by
  have hmin : minTick = -887272 := rfl
  have hmax : maxTick = 887272 := rfl
  rw [tickToSqrtPrice, if_neg (by omega), if_neg (by omega), if_neg (by omega),
    power_overflow hfar (by omega)]
  rfl

/-- Near to zero, the ticks other than -1 have a price between those of the two ends. -/
theorem tickToSqrtPrice_near :
    ∀ t ∈ Finset.Icc (-7 : ℤ) 7, (t = -1 ∧ tickToSqrtPrice t = .error (mathError .overflow)) ∨
      (t ≠ -1 ∧ Yields (tickToSqrtPrice t) fun p => 4295128739 < p ∧ p < u128Max) := by
  decide +kernel

/-- How the prices near to zero compare. -/
theorem rises_near_iff : ∀ s ∈ Finset.Icc (-7 : ℤ) 7, ∀ t ∈ Finset.Icc (-7 : ℤ) 7, s < t →
    (Rises s t ↔ (s ≠ -1 ∧ t ≠ -1) ∧
      (t ≤ -2 ∨ 1 ≤ s ∨ (s = 0 ∧ 3 ≤ t) ∨ (s ≤ -2 ∧ s + 10 ≤ t))) := by
  decide +kernel

/-- What `tick_to_sqrt_price` returns: the two fixed prices, a price between them, or an error. -/
theorem tickToSqrtPrice_cases (t : ℤ) :
    t = minTick ∧ tickToSqrtPrice t = .ok 4295128739 ∨
      t = maxTick ∧ tickToSqrtPrice t = .ok u128Max ∨
      (-7 ≤ t ∧ t ≤ 7 ∧ t ≠ -1) ∧
        (∃ p, tickToSqrtPrice t = .ok p ∧ 4295128739 < p ∧ p < u128Max) ∨
      ¬ Priced t ∧ ∃ e, tickToSqrtPrice t = .error e := by
  have hmin : minTick = -887272 := rfl
  have hmax : maxTick = 887272 := rfl
  by_cases hlow : t = minTick
  · subst hlow
    exact .inl ⟨rfl, rfl⟩
  by_cases hhigh : t = maxTick
  · subst hhigh
    exact .inr (.inl ⟨rfl, rfl⟩)
  refine .inr (.inr ?_)
  by_cases hnear : -7 ≤ t ∧ t ≤ 7
  · rcases tickToSqrtPrice_near t (Finset.mem_Icc.mpr hnear) with ⟨hone, he⟩ | ⟨hne, hp⟩
    · exact .inr ⟨by rw [Priced]; omega, _, he⟩
    · exact .inl ⟨⟨hnear.1, hnear.2, hne⟩, yields_iff.mp hp⟩
  · refine .inr ⟨by rw [Priced]; omega, ?_⟩
    by_cases hrange : t < minTick ∨ maxTick < t
    · exact ⟨_, if_pos hrange⟩
    · exact ⟨_, tickToSqrtPrice_far (by omega) (by omega) (by omega)⟩

/-- **Which ticks have a price.** -/
theorem tickToSqrtPrice_ok_iff {t : ℤ} : (∃ p, tickToSqrtPrice t = .ok p) ↔ Priced t := by
  rcases tickToSqrtPrice_cases t with ⟨ht, hp⟩ | ⟨ht, hp⟩ | ⟨ht, p, hp, -⟩ | ⟨ht, e, he⟩
  · exact iff_of_true ⟨_, hp⟩ (.inl ht)
  · exact iff_of_true ⟨_, hp⟩ (.inr (.inl ht))
  · exact iff_of_true ⟨_, hp⟩ (.inr (.inr ht))
  · refine iff_of_false ?_ ht
    rintro ⟨p, hp⟩
    rw [he] at hp
    cases hp

theorem Rises.priced {s t : ℤ} (h : Rises s t) : Priced s ∧ Priced t := by
  obtain ⟨p, hp, h⟩ := yields_iff.mp h
  obtain ⟨q, hq, -⟩ := yields_iff.mp h
  exact ⟨tickToSqrtPrice_ok_iff.mp ⟨p, hp⟩, tickToSqrtPrice_ok_iff.mp ⟨q, hq⟩⟩

/-- **Where prices rise.** -/
theorem rises_iff {s t : ℤ} (hst : s < t) :
    Rises s t ↔ (Priced s ∧ Priced t) ∧ (s = minTick ∨ t = maxTick ∨ t ≤ -2 ∨ 1 ≤ s ∨
      (s = 0 ∧ 3 ≤ t) ∨ (s ≤ -2 ∧ s + 10 ≤ t)) := by
  have hmin : minTick = -887272 := rfl
  have hmax : maxTick = 887272 := rfl
  have hends : 4295128739 < u128Max := by decide
  by_cases hpriced : Priced s ∧ Priced t
  · rw [and_iff_right hpriced]
    rcases tickToSqrtPrice_cases s with ⟨rfl, hp⟩ | ⟨rfl, -⟩ | ⟨hs, -⟩ | ⟨hs, -⟩
    · -- the lowest tick has the lowest price
      refine iff_of_true ?_ (.inl rfl)
      rcases tickToSqrtPrice_cases t with ⟨rfl, -⟩ | ⟨-, hq⟩ | ⟨-, q, hq, hlt, -⟩ | ⟨ht, -⟩
      · exact absurd hst (lt_irrefl _)
      · exact yields_iff.mpr ⟨_, hp, yields_iff.mpr ⟨_, hq, hends⟩⟩
      · exact yields_iff.mpr ⟨_, hp, yields_iff.mpr ⟨_, hq, hlt⟩⟩
      · exact absurd hpriced.2 ht
    · rcases hpriced.2 with rfl | rfl | ht <;> omega
    · rcases tickToSqrtPrice_cases t with ⟨rfl, -⟩ | ⟨rfl, hq⟩ | ⟨ht, -⟩ | ⟨ht, -⟩
      · omega
      · -- the highest one has the highest
        refine iff_of_true ?_ (.inr (.inl rfl))
        rcases tickToSqrtPrice_cases s with ⟨-, hp⟩ | ⟨rfl, -⟩ | ⟨-, p, hp, -, hlt⟩ | ⟨hs', -⟩
        · exact yields_iff.mpr ⟨_, hp, yields_iff.mpr ⟨_, hq, hends⟩⟩
        · exact absurd hst (lt_irrefl _)
        · exact yields_iff.mpr ⟨_, hp, yields_iff.mpr ⟨_, hq, hlt⟩⟩
        · exact absurd hpriced.1 hs'
      · rw [rises_near_iff s (Finset.mem_Icc.mpr ⟨hs.1, hs.2.1⟩) t
          (Finset.mem_Icc.mpr ⟨ht.1, ht.2.1⟩) hst]
        omega
      · exact absurd hpriced.2 ht
    · exact absurd hpriced.1 hs
  · exact iff_of_false (fun h => hpriced h.priced) fun h => hpriced h.1

/-- **The search fails** on every price from the unit on: its second middle tick has no price. -/
theorem sqrtPriceToTick_fails {price : ℕ} (hprice : Q96 ≤ price) :
    sqrtPriceToTick price = .error (mathError .overflow) := by
  have hunit : tickToSqrtPrice 0 = .ok (100 * (Q96 / 10000)) := by decide
  have hbelow : 100 * (Q96 / 10000) < price := lt_of_lt_of_le (by decide) hprice
  have hmiddle : tickToSqrtPrice 443636 = .error (mathError .overflow) :=
    tickToSqrtPrice_far (by decide) (by decide) (by decide)
  have hratio : checkedDiv price Q96 = .ok (price / Q96) := checkedDiv_eq_ok.mpr ⟨by decide, rfl⟩
  have hpos : price / Q96 ≠ 0 := (Nat.div_pos hprice ClPool.Q96_pos).ne'
  rw [sqrtPriceToTick, if_neg (by have := ClPool.Q96_pos; omega), if_pos hprice, hratio, ok_bind,
    if_neg hpos]
  -- the first middle tick is 0, the second one is halfway up
  show tickSearch price (1774543 + 2) (-887272) 887272 = _
  rw [tickSearch, if_pos (by decide)]
  show (tickToSqrtPrice 0 >>= _) = _
  rw [hunit, ok_bind, if_neg hbelow.ne, if_pos hbelow, tickSearch, if_pos (by decide)]
  show (tickToSqrtPrice 443636 >>= _) = _
  rw [hmiddle]
  rfl

/-- **What works of the tick conversions.** -/
theorem tick_conversions_iff (s t : ℤ) (price : ℕ) :
    ((∃ p, tickToSqrtPrice t = .ok p) ↔ Priced t) ∧
      (s < t → (Rises s t ↔ (Priced s ∧ Priced t) ∧ (s = minTick ∨ t = maxTick ∨ t ≤ -2 ∨ 1 ≤ s ∨
        (s = 0 ∧ 3 ≤ t) ∨ (s ≤ -2 ∧ s + 10 ≤ t)))) ∧
      tickToSqrtPrice 0 ≠ .ok Q96 ∧
      (Q96 ≤ price → ¬ Yields (sqrtPriceToTick price) (Nearest price)) := by
  refine ⟨tickToSqrtPrice_ok_iff, rises_iff, by decide, ?_⟩
  intro hprice hyields
  rw [sqrtPriceToTick_fails hprice] at hyields
  exact hyields

/-- Tick 8 has no price, the price of tick 0 is not the unit, and the unit price has no tick. -/
theorem tick_conversions_fail :
    tickToSqrtPrice 8 = .error (mathError .overflow) ∧ tickToSqrtPrice 0 ≠ .ok Q96 ∧
      sqrtPriceToTick Q96 = .error (mathError .overflow) := by
  decide

end Swyft.MathLib
