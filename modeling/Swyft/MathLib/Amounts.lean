import Swyft.MathLib.Model

/-!
# The amounts of the mathematics library

`get_amount_0_delta` has a formula for each of three regions of the current price. Below the range
it forgets to take off what the liquidity is worth at the upper bound, inside it subtracts the
larger quotient from the smaller one, and above it gives the whole range where nothing is left. The
formulas of `get_amount_1_delta` are those of the curve; its one unguarded subtraction trusts the
bounds to be in order.

## Main definitions

* `curve0`, `curve1` — what the liquidity holds of the two tokens
* `FollowsCurve0`, `FollowsCurve1` — the amounts of a token over a range, at every current price,
  are those of the curve

## Main results

* `amounts_follow_curve_iff` — when they are
* `amounts_panic_iff` — when a plain operation stops the library
-/

namespace Swyft.MathLib

open Checked
open ClPool (Q96)

variable {liquidity lower upper current a b c : ℕ}

@[simp] theorem checkedMul_eq_ok : checkedMul a b = .ok c ↔ a * b < 2 ^ 128 ∧ a * b = c :=
  fitU_eq_ok

@[simp] theorem checkedSub_eq_ok : checkedSub a b = .ok c ↔ b ≤ a ∧ a - b = c := subU_eq_ok

@[simp] theorem checkedDiv_eq_ok : checkedDiv a b = .ok c ↔ b ≠ 0 ∧ a / b = c := divU_eq_ok

/-! ### The curve -/

/-- What the liquidity could be exchanged for at a price, in token 0. -/
def worth0 (liquidity price : ℕ) : ℕ := liquidity * Q96 / price

/-- The token 0 that the liquidity of a range holds. -/
def curve0 (liquidity lower upper current : ℕ) : ℕ :=
  if current < upper then worth0 liquidity (max current lower) - worth0 liquidity upper else 0

/-- The token 1 that it holds. -/
def curve1 (liquidity lower upper current : ℕ) : ℕ :=
  liquidity * (min current upper - lower) / Q96

theorem worth0_anti (liquidity : ℕ) (hpos : 0 < a) (hab : a ≤ b) :
    worth0 liquidity b ≤ worth0 liquidity a :=
  Nat.div_le_div_left hab hpos

/-- As the price rises, token 0 is given up. -/
theorem curve0_anti (hlower : 0 < lower) (hab : a ≤ b) :
    curve0 liquidity lower upper b ≤ curve0 liquidity lower upper a := by
  rw [curve0, curve0]
  split
  case isTrue hb =>
    rw [if_pos (by omega)]
    have := worth0_anti liquidity (a := max a lower) (b := max b lower) (by omega)
      (by omega)
    omega
  case isFalse => exact Nat.zero_le _

/-- As the price rises, token 1 is taken. -/
theorem curve1_mono (hab : a ≤ b) :
    curve1 liquidity lower upper a ≤ curve1 liquidity lower upper b :=
  Nat.div_le_div_right (Nat.mul_le_mul_left _ (by omega))

/-! ### Token 0 -/

section Amount0

variable (hlower : 0 < lower) (hlt : lower < upper) (hfits : liquidity * Q96 < 2 ^ 128)
include hlower hlt hfits

/-- What the three formulas return. -/
theorem getAmount0Delta_eq (hpos : liquidity ≠ 0) :
    getAmount0Delta liquidity lower upper current =
      if current ≤ lower then .ok (worth0 liquidity lower)
      else if current < upper then
        checkedSub (worth0 liquidity current) (worth0 liquidity lower)
      else .ok (worth0 liquidity lower - worth0 liquidity upper) := by
  have hmul : checkedMul liquidity Q96 = .ok (liquidity * Q96) := checkedMul_eq_ok.mpr ⟨hfits, rfl⟩
  have hdiv : ∀ {price}, 0 < price → checkedDiv (liquidity * Q96) price
      = .ok (worth0 liquidity price) := fun h => checkedDiv_eq_ok.mpr ⟨by omega, rfl⟩
  rw [getAmount0Delta, if_neg hpos, if_neg (by omega)]
  split_ifs with hbelow hinside
  · rw [hmul, ok_bind, hdiv hlower]
  · rw [hmul, ok_bind, hdiv (by omega), ok_bind, ok_bind, hdiv hlower, ok_bind]
  · rw [hmul, ok_bind, hdiv hlower, ok_bind, ok_bind, hdiv (by omega), ok_bind]
    exact checkedSub_eq_ok.mpr ⟨worth0_anti liquidity hlower hlt.le, rfl⟩

end Amount0

/-- Where the formula of the region gives what the curve gives. -/
def OnCurve0 (liquidity lower upper current : ℕ) : Prop :=
  liquidity = 0 ∨
    if current ≤ lower then liquidity * Q96 < upper
    else if current < upper then
      worth0 liquidity lower = worth0 liquidity current ∧
        worth0 liquidity current = worth0 liquidity upper
    else worth0 liquidity lower = worth0 liquidity upper

/-- **When the token 0 amount is the curve's**, at one current price. -/
theorem getAmount0Delta_eq_curve_iff (hlower : 0 < lower) (hlt : lower < upper)
    (hfits : liquidity * Q96 < 2 ^ 128) :
    getAmount0Delta liquidity lower upper current = .ok (curve0 liquidity lower upper current) ↔
      OnCurve0 liquidity lower upper current := by
  rcases Nat.eq_zero_or_pos liquidity with rfl | hpos
  · have hzero : curve0 0 lower upper current = 0 := by simp [curve0, worth0]
    rw [hzero]
    exact iff_of_true rfl (.inl rfl)
  have hrange := worth0_anti liquidity hlower hlt.le
  rw [getAmount0Delta_eq hlower hlt hfits hpos.ne', OnCurve0, or_iff_right hpos.ne', curve0]
  split_ifs with hbelow hunder hinside
  · -- below the range the upper bound is not taken off
    have hmax : max current lower = lower := max_eq_right hbelow
    have hworth : liquidity * Q96 < upper ↔ worth0 liquidity upper = 0 := by
      rw [worth0, Nat.div_eq_zero_iff]
      omega
    rw [hmax, Except.ok.injEq, hworth]
    omega
  · omega
  · -- inside it the larger quotient is taken off the smaller one
    have hmax : max current lower = current := max_eq_left (by omega)
    have hlow := worth0_anti liquidity (b := current) hlower (by omega)
    have hhigh := worth0_anti liquidity (a := current) (by omega) hinside.le
    rw [hmax, checkedSub_eq_ok]
    omega
  · rw [Except.ok.injEq]
    omega

/-- The token 0 amount of a range is the curve's at every current price: it falls, it is the whole
range's at the lower bound and nothing at the upper one. -/
structure FollowsCurve0 (liquidity lower upper : ℕ) : Prop where
  value : ∀ current, getAmount0Delta liquidity lower upper current
    = .ok (curve0 liquidity lower upper current)
  falling : ∀ {p q a b}, p ≤ q → getAmount0Delta liquidity lower upper p = .ok a →
    getAmount0Delta liquidity lower upper q = .ok b → b ≤ a
  atLower : getAmount0Delta liquidity lower upper lower
    = .ok (worth0 liquidity lower - worth0 liquidity upper)
  atUpper : getAmount0Delta liquidity lower upper upper = .ok 0

theorem FollowsCurve0.of_value (hlower : 0 < lower) (hlt : lower < upper)
    (h : ∀ current, getAmount0Delta liquidity lower upper current
      = .ok (curve0 liquidity lower upper current)) : FollowsCurve0 liquidity lower upper where
  value := h
  falling := by
    intro p q a b hpq ha hb
    rw [h, Except.ok.injEq] at ha hb
    rw [← ha, ← hb]
    exact curve0_anti hlower hpq
  atLower := by rw [h, curve0, if_pos hlt, max_self]
  atUpper := by rw [h, curve0, if_neg (lt_irrefl _)]

/-- Over a whole range it is so only for a liquidity worth nothing. -/
theorem followsCurve0_iff (hlower : 0 < lower) (hlt : lower < upper)
    (hfits : liquidity * Q96 < 2 ^ 128) :
    FollowsCurve0 liquidity lower upper ↔ liquidity = 0 ∨ liquidity * Q96 < lower := by
  have hiff : ∀ current, _ ↔ OnCurve0 liquidity lower upper current :=
    fun _ => getAmount0Delta_eq_curve_iff hlower hlt hfits
  constructor
  · intro h
    refine (Nat.eq_zero_or_pos liquidity).imp_right fun hpos => ?_
    have hbelow := ((hiff lower).mp (h.value lower)).resolve_left hpos.ne'
    have habove := ((hiff upper).mp (h.value upper)).resolve_left hpos.ne'
    rw [if_pos le_rfl] at hbelow
    rw [if_neg (by omega), if_neg (lt_irrefl _), worth0, worth0, Nat.div_eq_of_lt hbelow] at habove
    exact (Nat.div_eq_zero_iff.mp habove).resolve_left hlower.ne'
  · intro h
    refine .of_value hlower hlt fun current => (hiff current).mpr (h.imp_right fun hsmall => ?_)
    have hzero : ∀ {price}, lower ≤ price → worth0 liquidity price = 0 :=
      fun hle => Nat.div_eq_of_lt (hsmall.trans_le hle)
    split_ifs with hbelow hinside
    · omega
    · rw [hzero le_rfl, hzero (by omega), hzero hlt.le]
      exact ⟨rfl, rfl⟩
    · rw [hzero le_rfl, hzero hlt.le]

/-! ### Token 1 -/

/-- Where the product fits, the token 1 amount is the curve's. -/
theorem getAmount1Delta_eq (hle : lower ≤ upper)
    (hfits : liquidity * (min current upper - lower) < 2 ^ 128) :
    getAmount1Delta liquidity lower upper current = .ok (curve1 liquidity lower upper current) := by
  rw [getAmount1Delta, curve1]
  split_ifs with hzero habove hinside
  · rw [hzero, Nat.zero_mul, Nat.zero_div]
    rfl
  · rw [min_eq_right habove] at hfits ⊢
    simp only [bind_eq_ok, subU128_eq_ok, checkedMul_eq_ok, pure_eq_ok]
    exact ⟨_, ⟨hle, rfl⟩, _, ⟨hfits, rfl⟩, rfl⟩
  · rw [min_eq_left (not_le.mp habove).le] at hfits ⊢
    simp only [bind_eq_ok, subU128_eq_ok, checkedMul_eq_ok, pure_eq_ok]
    exact ⟨_, ⟨hinside.le, rfl⟩, _, ⟨hfits, rfl⟩, rfl⟩
  · rw [show min current upper - lower = 0 by omega, Nat.mul_zero, Nat.zero_div]
    rfl

/-- The token 1 amount of a range is the curve's at every current price where its product fits: it
is nothing up to the lower bound, rises, and stays from the upper bound on. -/
structure FollowsCurve1 (liquidity lower upper : ℕ) : Prop where
  value : ∀ current, liquidity * (min current upper - lower) < 2 ^ 128 →
    getAmount1Delta liquidity lower upper current = .ok (curve1 liquidity lower upper current)
  zero : ∀ current ≤ lower, getAmount1Delta liquidity lower upper current = .ok 0
  rising : ∀ {p q a b}, p ≤ q → getAmount1Delta liquidity lower upper p = .ok a →
    getAmount1Delta liquidity lower upper q = .ok b → a ≤ b
  constant : ∀ {p q}, upper ≤ p → upper ≤ q →
    getAmount1Delta liquidity lower upper p = getAmount1Delta liquidity lower upper q

/-- Whatever it returns is the curve's. -/
theorem getAmount1Delta_eq_ok
    (h : getAmount1Delta liquidity lower upper current = .ok a) :
    a = curve1 liquidity lower upper current := by
  rw [getAmount1Delta] at h
  rw [curve1]
  split_ifs at h with hzero habove hinside
  · rw [hzero, Nat.zero_mul, Nat.zero_div]
    exact (pure_eq_ok.mp h).symm
  · simp only [bind_eq_ok, subU128_eq_ok, checkedMul_eq_ok, pure_eq_ok] at h
    obtain ⟨_, ⟨-, rfl⟩, _, ⟨-, rfl⟩, rfl⟩ := h
    rw [min_eq_right habove]
  · simp only [bind_eq_ok, subU128_eq_ok, checkedMul_eq_ok, pure_eq_ok] at h
    obtain ⟨_, ⟨-, rfl⟩, _, ⟨-, rfl⟩, rfl⟩ := h
    rw [min_eq_left (not_le.mp habove).le]
  · rw [show min current upper - lower = 0 by omega, Nat.mul_zero, Nat.zero_div]
    exact (pure_eq_ok.mp h).symm

theorem followsCurve1 (hle : lower ≤ upper) : FollowsCurve1 liquidity lower upper where
  value := fun _ hfits => getAmount1Delta_eq hle hfits
  zero := by
    intro current hcurrent
    have hnone : min current upper - lower = 0 := by omega
    have hfits : liquidity * (min current upper - lower) < 2 ^ 128 := by
      rw [hnone, Nat.mul_zero]
      decide
    rw [getAmount1Delta_eq hle hfits, curve1, hnone, Nat.mul_zero, Nat.zero_div]
  rising := by
    intro p q a b hpq ha hb
    rw [getAmount1Delta_eq_ok ha, getAmount1Delta_eq_ok hb]
    exact curve1_mono hpq
  constant := by
    intro p q hp hq
    rw [getAmount1Delta, getAmount1Delta, if_pos hp, if_pos hq]

/-- **When the amounts follow the curve.** The token 0 amount does so at a current price exactly
where the formula of its region happens to round to the curve's value, and over the whole range only
for a liquidity that is worth nothing at the lower bound. The token 1 amount always does. -/
theorem amounts_follow_curve_iff (hlower : 0 < lower) (hlt : lower < upper)
    (hfits : liquidity * Q96 < 2 ^ 128) :
    (∀ current, getAmount0Delta liquidity lower upper current
        = .ok (curve0 liquidity lower upper current) ↔
      OnCurve0 liquidity lower upper current) ∧
    (FollowsCurve0 liquidity lower upper ↔ liquidity = 0 ∨ liquidity * Q96 < lower) ∧
    FollowsCurve1 liquidity lower upper :=
  ⟨fun _ => getAmount0Delta_eq_curve_iff hlower hlt hfits, followsCurve0_iff hlower hlt hfits,
    followsCurve1 hlt.le⟩

/-- Halfway up the range from the unit price to its double, a million of liquidity underflows; above
the range it is still given half a million, and below it a million instead of half of it. -/
theorem amounts_leave_curve :
    getAmount0Delta 1000000 (2 ^ 96) (2 ^ 97) (2 ^ 96 + 2 ^ 95) = .error (mathError .underflow) ∧
      getAmount0Delta 1000000 (2 ^ 96) (2 ^ 97) (2 ^ 98) = .ok 500000 ∧
      curve0 1000000 (2 ^ 96) (2 ^ 97) (2 ^ 98) = 0 ∧
      getAmount0Delta 1000000 (2 ^ 96) (2 ^ 97) (2 ^ 95) = .ok 1000000 ∧
      curve0 1000000 (2 ^ 96) (2 ^ 97) (2 ^ 95) = 500000 := by
  decide

theorem amounts_follow_curve_at_dust :
    (∀ current, getAmount0Delta 1 (2 ^ 97) (2 ^ 98) current
        = .ok (curve0 1 (2 ^ 97) (2 ^ 98) current) ↔ OnCurve0 1 (2 ^ 97) (2 ^ 98) current) ∧
      (FollowsCurve0 1 (2 ^ 97) (2 ^ 98) ↔ 1 = 0 ∨ 1 * Q96 < 2 ^ 97) ∧
      FollowsCurve1 1 (2 ^ 97) (2 ^ 98) :=
  amounts_follow_curve_iff (by decide) (by decide) (by decide)

/-! ### Panics -/

/-- The function returns a value or one of the library's own errors. -/
def Typed (x : Res ℕ) : Prop := ∀ trap, x = .error trap → ∃ e : MathError, trap = mathError e

theorem typed_ok : Typed (.ok a) := by
  rintro _ ⟨⟩

theorem typed_error (e : MathError) : Typed (.error (mathError e)) := by
  rintro _ ⟨⟩
  exact ⟨e, rfl⟩

/-- A computation of typed steps is typed. -/
theorem Typed.bind {x : Res ℕ} {f : ℕ → Res ℕ} (hx : Typed x) (hf : ∀ a, Typed (f a)) :
    Typed (x >>= f) := by
  intro trap h
  rcases bind_eq_error.mp h with herror | ⟨a, -, herror⟩
  · exact hx trap herror
  · exact hf a trap herror

theorem typed_checkedMul : Typed (checkedMul a b) := by
  rw [checkedMul, fitU]
  split
  · exact typed_ok
  · exact typed_error _

theorem typed_checkedAdd : Typed (checkedAdd a b) := by
  rw [checkedAdd, fitU]
  split
  · exact typed_ok
  · exact typed_error _

theorem typed_checkedSub : Typed (checkedSub a b) := by
  rw [checkedSub, subU]
  split
  · exact typed_ok
  · exact typed_error _

theorem typed_checkedDiv : Typed (checkedDiv a b) := by
  rw [checkedDiv, divU]
  split
  · exact typed_error _
  · exact typed_ok

theorem typed_getAmount0Delta : Typed (getAmount0Delta liquidity lower upper current) := by
  rw [getAmount0Delta]
  split_ifs
  · exact typed_ok
  · exact typed_ok
  · exact typed_checkedMul.bind fun _ => typed_checkedDiv
  · exact typed_checkedMul.bind fun _ => typed_checkedDiv.bind fun _ =>
      typed_checkedMul.bind fun _ => typed_checkedDiv.bind fun _ => typed_checkedSub
  · exact typed_checkedMul.bind fun _ => typed_checkedDiv.bind fun _ =>
      typed_checkedMul.bind fun _ => typed_checkedDiv.bind fun _ => typed_checkedSub

theorem typed_nextSqrtPrice0 {sqrtPrice amountIn : ℕ} {zeroForOne : Bool} :
    Typed (nextSqrtPrice0 sqrtPrice liquidity amountIn zeroForOne) := by
  rw [nextSqrtPrice0]
  split_ifs
  · exact typed_error _
  · exact typed_checkedMul.bind fun _ => typed_checkedDiv.bind fun _ => typed_checkedSub
  · exact typed_checkedMul.bind fun _ => typed_checkedDiv.bind fun _ =>
      typed_checkedAdd.bind fun _ => typed_checkedMul.bind fun _ => typed_checkedDiv

theorem typed_nextSqrtPrice1 {sqrtPrice amountIn : ℕ} {zeroForOne : Bool} :
    Typed (nextSqrtPrice1 sqrtPrice liquidity amountIn zeroForOne) := by
  rw [nextSqrtPrice1]
  split_ifs
  · exact typed_error _
  · exact typed_checkedMul.bind fun _ => typed_checkedDiv.bind fun _ => typed_checkedAdd
  · exact typed_checkedMul.bind fun _ => typed_checkedDiv.bind fun _ => typed_checkedSub

/-- The two plain subtractions of `get_amount_1_delta` are of prices; only the one of the bounds is
not guarded. -/
theorem typed_getAmount1Delta_iff : Typed (getAmount1Delta liquidity lower upper current) ↔
    ¬ (liquidity ≠ 0 ∧ upper < lower ∧ upper ≤ current) := by
  rw [getAmount1Delta]
  split_ifs with hzero habove hinside
  · exact iff_of_true typed_ok fun h => h.1 hzero
  · rcases lt_or_ge upper lower with hinverted | hordered
    · have hpanic : subU128 upper lower = .error .arithmetic := if_neg (by omega)
      rw [hpanic, error_bind]
      refine iff_of_false (fun h => ?_) (not_not.mpr ⟨hzero, hinverted, habove⟩)
      obtain ⟨e, he⟩ := h _ rfl
      exact absurd he (by simp [mathError])
    · have hsub : subU128 upper lower = .ok (upper - lower) := subU_of_le hordered
      rw [hsub, ok_bind]
      exact iff_of_true (typed_checkedMul.bind fun _ => typed_ok) (by omega)
  · have hsub : subU128 current lower = .ok (current - lower) := subU_of_le hinside.le
    rw [hsub, ok_bind]
    exact iff_of_true (typed_checkedMul.bind fun _ => typed_ok) (by omega)
  · exact iff_of_true typed_ok (by omega)

/-- **When the library panics**: in `get_amount_1_delta`, for some liquidity over inverted bounds
with the current price at or above the upper one. The other three functions never do. -/
theorem amounts_panic_iff (liquidity lower upper current sqrtPrice amountIn : ℕ)
    (zeroForOne : Bool) :
    (Typed (getAmount1Delta liquidity lower upper current) ↔
        ¬ (liquidity ≠ 0 ∧ upper < lower ∧ upper ≤ current)) ∧
      Typed (getAmount0Delta liquidity lower upper current) ∧
      Typed (nextSqrtPrice0 sqrtPrice liquidity amountIn zeroForOne) ∧
      Typed (nextSqrtPrice1 sqrtPrice liquidity amountIn zeroForOne) :=
  ⟨typed_getAmount1Delta_iff, typed_getAmount0Delta, typed_nextSqrtPrice0, typed_nextSqrtPrice1⟩

/-- Inverted bounds just below the current price: the subtraction of the bounds underflows. -/
theorem inverted_bounds_panic : getAmount1Delta 1 2 1 1 = .error .arithmetic := by
  decide

end Swyft.MathLib
