import Mathlib.Data.Rat.Floor
import Mathlib.Algebra.Order.Field.Rat
import Mathlib.Algebra.Order.Ring.Pow
import Mathlib.Tactic.Ring
import Mathlib.Tactic.Linarith
import Mathlib.Tactic.Positivity
import Mathlib.Tactic.FieldSimp

/-!
# Powers in fixed point, by repeated squaring

Numbers at a scale, multiplied with the product capped and rounded down. A power computed by
repeated squaring takes a different path for every exponent, but whatever the path, one rounding is
lost for each factor at most: the power lies between the exact one and the exact one of a base that
is smaller by one part in the scale, up to the cap.

## Main definitions

* `power` — square and multiply, with any multiplication
* `mulCapped` — multiplication at a scale
* `Encloses` — a number is a power, up to the roundings and the cap

## Main results

* `power_induction` — what squaring and multiplying preserve, the power has
* `encloses_power` — how far the power is from the exact one
-/

namespace FixedPower

/-! ### Square and multiply -/

section Power

variable {α : Type}

/-- One round for each binary digit of the exponent, from the lowest. -/
def power (mul : α → α → α) : (rounds : ℕ) → (result base : α) → (exponent : ℕ) → α
  | 0, result, _, _ => result
  | rounds + 1, result, base, exponent =>
    if exponent = 0 then result
    else power mul rounds (if exponent % 2 = 1 then mul result base else result)
      (mul base base) (exponent / 2)

/-- **What squaring and multiplying preserve.** `R m` is said of a product of `m` factors, and `B j`
of the `j`th power the squarings have reached. -/
theorem power_induction {mul : α → α → α} {R B : ℕ → α → Prop}
    (hmul : ∀ {m j x y}, R m x → B j y → R (m + j) (mul x y))
    (hsquare : ∀ {j y}, B j y → B (j + j) (mul y y)) :
    ∀ {rounds m j x y e}, R m x → B j y → e < 2 ^ rounds →
      R (m + j * e) (power mul rounds x y e) := by
  intro rounds
  induction rounds with
  | zero =>
    intro m j x y e hx _ he
    obtain rfl : e = 0 := by omega
    exact hx
  | succ rounds ih =>
    intro m j x y e hx hy he
    rw [power]
    have hhalf : e / 2 < 2 ^ rounds := by
      rw [pow_succ] at he
      omega
    have hdigits := Nat.div_add_mod e 2
    split
    case isTrue hzero =>
      rw [hzero]
      exact hx
    case isFalse =>
      split
      case isTrue hodd =>
        have hstep := ih (hmul hx hy) (hsquare hy) hhalf
        have hexp : m + j + (j + j) * (e / 2) = m + j * e := by
          nth_rewrite 2 [← hdigits]
          rw [hodd]
          ring
        rwa [hexp] at hstep
      case isFalse heven =>
        have hstep := ih hx (hsquare hy) hhalf
        have hexp : m + (j + j) * (e / 2) = m + j * e := by
          nth_rewrite 2 [← hdigits]
          rw [show e % 2 = 0 by omega]
          ring
        rwa [hexp] at hstep

end Power

/-! ### Multiplication at a scale -/

/-- The product of two numbers at a scale, capped before it is scaled back. -/
def mulCapped (cap scale x y : ℕ) : ℕ := min (x * y) cap / scale

variable {cap scale x y : ℕ}

theorem mulCapped_le_top : mulCapped cap scale x y ≤ cap / scale :=
  Nat.div_le_div_right (Nat.min_le_right _ _)

theorem mulCapped_le (hs : 0 < scale) : (mulCapped cap scale x y : ℚ) ≤ x * y / scale := by
  rw [le_div_iff₀ (by exact_mod_cast hs)]
  have hfloor : mulCapped cap scale x y * scale ≤ x * y :=
    (Nat.div_mul_le_self _ _).trans (Nat.min_le_left _ _)
  exact_mod_cast hfloor

/-- A factor at the top takes the product to the top. -/
theorem mulCapped_of_top (hs : 0 < scale) (hx : cap / scale ≤ x) (hy : scale ≤ y) :
    mulCapped cap scale x y = cap / scale := by
  refine le_antisymm mulCapped_le_top ?_
  rw [mulCapped, Nat.le_div_iff_mul_le hs]
  exact le_min (Nat.mul_le_mul hx hy) (Nat.div_mul_le_self _ _)

theorem mulCapped_comm : mulCapped cap scale x y = mulCapped cap scale y x := by
  rw [mulCapped, mulCapped, Nat.mul_comm]

theorem scale_le_mulCapped (hs : 0 < scale) (hcap : scale ≤ cap / scale) (hx : scale ≤ x)
    (hy : scale ≤ y) : scale ≤ mulCapped cap scale x y := by
  rw [mulCapped, Nat.le_div_iff_mul_le hs]
  exact le_min (Nat.mul_le_mul hx hy) ((Nat.le_div_iff_mul_le hs).mp hcap)

/-- What is left of a number after one rounding. -/
def kept (scale : ℕ) : ℚ := 1 - 1 / scale

/-- What is left after many roundings. -/
theorem one_sub_le_kept_pow (hs : 0 < scale) (n : ℕ) : 1 - (n : ℚ) / scale ≤ kept scale ^ n := by
  have hle : (1 : ℚ) / scale ≤ 1 := by
    rw [div_le_one (by exact_mod_cast hs)]
    exact_mod_cast hs
  have hbernoulli := one_add_mul_sub_le_pow (a := kept scale) (by rw [kept]; linarith) n
  refine le_trans (le_of_eq ?_) hbernoulli
  rw [kept]
  ring

/-- Of factors that are at least the unit, a product below the top loses at most one part in the
scale. -/
theorem le_mulCapped (hs : 0 < scale) (hx : scale ≤ x) (hy : scale ≤ y) :
    mulCapped cap scale x y = cap / scale ∨
      x * y / scale * kept scale ≤ mulCapped cap scale x y := by
  have hs' : (0 : ℚ) < scale := by exact_mod_cast hs
  rcases le_or_gt cap (x * y) with hover | hunder
  · left
    rw [mulCapped, Nat.min_eq_right hover]
  · right
    have hfloor : x * y < scale * (mulCapped cap scale x y + 1) := by
      rw [mulCapped, Nat.min_eq_left hunder.le]
      exact Nat.lt_mul_div_succ _ hs
    have hbelow : (x : ℚ) * y / scale < mulCapped cap scale x y + 1 := by
      rw [div_lt_iff₀' hs']
      exact_mod_cast hfloor
    have hunit : (1 : ℚ) ≤ x * y / scale * (1 / scale) := by
      rw [mul_one_div, div_div, one_le_div (mul_pos hs' hs')]
      exact_mod_cast Nat.mul_le_mul hx hy
    rw [kept, mul_sub, mul_one]
    linarith

/-! ### Enclosing a power -/

/-- `x` is the power of `b` with exponent `n`, at the scale. It is at most the exact power, and
unless it has reached the top it is, but for a slack, at least the exact power of `c`. -/
structure Encloses (cap scale : ℕ) (b c slack : ℚ) (n x : ℕ) : Prop where
  unit : scale ≤ x
  le_top : x ≤ cap / scale
  upper : (x : ℚ) ≤ scale * b ^ n
  lower : x = cap / scale ∨ scale * c ^ n ≤ x * slack

variable {b c slack : ℚ} {m j n : ℕ}

/-- The unit is the power with exponent zero. -/
theorem encloses_unit (hcap : scale ≤ cap / scale) : Encloses cap scale b c 1 0 scale where
  unit := le_rfl
  le_top := hcap
  upper := by rw [pow_zero, mul_one]
  lower := .inr (by rw [pow_zero])

/-- **Exponents add up**, where one of the factors has a rounding to spare. -/
theorem Encloses.mul (hs : 0 < scale) (hb : 0 ≤ b) (hc : 0 ≤ c) (hslack : 0 ≤ slack)
    (hx : Encloses cap scale b c slack m x) (hy : Encloses cap scale b c (kept scale) j y) :
    Encloses cap scale b c slack (m + j) (mulCapped cap scale x y) := by
  have hs' : (0 : ℚ) < scale := by exact_mod_cast hs
  refine ⟨scale_le_mulCapped hs (hx.unit.trans hx.le_top) hx.unit hy.unit, mulCapped_le_top, ?_, ?_⟩
  · calc (mulCapped cap scale x y : ℚ) ≤ x * y / scale := mulCapped_le hs
      _ ≤ (scale * b ^ m) * (scale * b ^ j) / scale := by
        gcongr
        · exact hx.upper
        · exact hy.upper
      _ = scale * b ^ (m + j) := by
        rw [pow_add]
        field_simp
  · rcases hx.lower with htop | hlow
    · exact .inl (mulCapped_of_top hs htop.ge hy.unit)
    rcases hy.lower with htop | hlow'
    · rw [mulCapped_comm]
      exact .inl (mulCapped_of_top hs htop.ge hx.unit)
    refine (le_mulCapped hs hx.unit hy.unit).imp_right fun hkept => ?_
    calc scale * c ^ (m + j) = (scale * c ^ m) * (scale * c ^ j) / scale := by
          rw [pow_add]
          field_simp
      _ ≤ (x * slack) * (y * kept scale) / scale := by
        gcongr
      _ = x * y / scale * kept scale * slack := by ring
      _ ≤ mulCapped cap scale x y * slack := by gcongr

/-- **How far a fixed-point power is from the exact one.** -/
theorem encloses_power (hs : 0 < scale) (hcap : scale ≤ cap / scale) (hb : 0 ≤ b) (hc : 0 ≤ c)
    {base rounds e : ℕ} (hbase : Encloses cap scale b c (kept scale) 1 base)
    (he : e < 2 ^ rounds) :
    Encloses cap scale b c 1 e (power (mulCapped cap scale) rounds scale base e) := by
  have hkept : 0 ≤ kept scale := by
    rw [kept, sub_nonneg, div_le_one (by exact_mod_cast hs)]
    exact_mod_cast hs
  have hpower := power_induction (R := Encloses cap scale b c 1)
    (B := Encloses cap scale b c (kept scale)) (fun hx hy => hx.mul hs hb hc zero_le_one hy)
    (fun hy => hy.mul hs hb hc hkept hy) (encloses_unit hcap) hbase he
  rwa [Nat.zero_add, Nat.one_mul] at hpower

end FixedPower
