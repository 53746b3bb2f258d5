import Mathlib.Data.Nat.Bitwise
import Mathlib.Algebra.Order.Ring.Int
import Mathlib.Logic.Function.Basic
import Mathlib.Tactic.Common

/-!
# A set of integers in machine words

A set of integers stored one bit each in words of a fixed width, word `c / width` holding `c` at
bit `c % width`. Membership is toggled by xor, and neighbours are found by masking a word and
counting its zeros.

## Main results

* `Bits.bitAt_flip` — xor toggles one member and no other
* `Bits.leadingZeros_spec`, `trailingZeros_spec` — what the zero counts find
* `Bits.testBit_lowMask`, `testBit_highMask` — the masks keep the bits up to, and from, a position
-/

namespace Bits

/-- `leading_zeros` of a `width`-bit word. -/
def leadingZeros (width word : ℕ) : ℕ :=
  ((List.range width).find? fun i => word.testBit (width - 1 - i)).getD width

/-- `trailing_zeros` of a `width`-bit word. -/
def trailingZeros (width word : ℕ) : ℕ :=
  ((List.range width).find? fun i => word.testBit i).getD width

/-- Membership of `c` in the set held by `words`. -/
def bitAt (width : ℕ) (words : ℤ → ℕ) (c : ℤ) : Bool :=
  (words (c / width)).testBit (c % width).toNat

variable {width word : ℕ}

theorem exists_bit_lt (hlt : word < 2 ^ width) (hne : word ≠ 0) :
    ∃ i < width, word.testBit i = true := by
  obtain ⟨i, hi⟩ := Nat.exists_testBit_of_ne_zero hne
  refine ⟨i, ?_, hi⟩
  by_contra hge
  have hle : word < 2 ^ i := lt_of_lt_of_le hlt (Nat.pow_le_pow_right (by omega) (by omega))
  rw [Nat.testBit_lt_two_pow hle] at hi
  cases hi

/-- The bit below the leading zeros is the highest one set. -/
theorem leadingZeros_spec (hlt : word < 2 ^ width) (hne : word ≠ 0) :
    ∃ m < width, leadingZeros width word = width - 1 - m ∧ word.testBit m = true ∧
      ∀ i, m < i → word.testBit i = false := by
  obtain ⟨k, hk, hbit⟩ := exists_bit_lt hlt hne
  cases hf : (List.range width).find? fun i => word.testBit (width - 1 - i) with
  | none =>
    have hnone := List.find?_range_eq_none.mp hf (width - 1 - k) (by omega)
    rw [show width - 1 - (width - 1 - k) = k by omega, hbit] at hnone
    cases hnone
  | some z =>
    obtain ⟨hz, hzw, hbefore⟩ := List.find?_range_eq_some.mp hf
    have hzw : z < width := List.mem_range.mp hzw
    refine ⟨width - 1 - z, by omega, ?_, hz, fun i hi => ?_⟩
    · rw [leadingZeros, hf, Option.getD_some]; omega
    · by_cases hiw : i < width
      · have hi' := hbefore (width - 1 - i) (by omega)
        rw [show width - 1 - (width - 1 - i) = i by omega] at hi'
        simpa using hi'
      · exact Nat.testBit_lt_two_pow
          (lt_of_lt_of_le hlt (Nat.pow_le_pow_right (by omega) (by omega)))

/-- The number of trailing zeros is the lowest bit set. -/
theorem trailingZeros_spec (hlt : word < 2 ^ width) (hne : word ≠ 0) :
    trailingZeros width word < width ∧ word.testBit (trailingZeros width word) = true ∧
      ∀ i < trailingZeros width word, word.testBit i = false := by
  obtain ⟨k, hk, hbit⟩ := exists_bit_lt hlt hne
  cases hf : (List.range width).find? fun i => word.testBit i with
  | none =>
    have hnone := List.find?_range_eq_none.mp hf k hk
    rw [hbit] at hnone
    cases hnone
  | some z =>
    obtain ⟨hz, hzw, hbefore⟩ := List.find?_range_eq_some.mp hf
    rw [trailingZeros, hf, Option.getD_some]
    exact ⟨List.mem_range.mp hzw, hz, fun i hi => by simpa using hbefore i hi⟩

/-! ### Masks -/

/-- `(1 << b).wrapping_sub(1).wrapping_add(1 << b)` keeps the bits up to `b`. -/
theorem testBit_lowMask {b i : ℕ} (hb : b < width) :
    ((2 ^ b - 1 + 2 ^ b) % 2 ^ width).testBit i = decide (i ≤ b) := by
  have hpow : 2 ^ (b + 1) ≤ 2 ^ width := Nat.pow_le_pow_right (by omega) hb
  have hpos : 0 < 2 ^ b := Nat.two_pow_pos b
  have hsum : 2 ^ b - 1 + 2 ^ b = 2 ^ (b + 1) - 1 := by rw [Nat.pow_succ]; omega
  rw [hsum, Nat.mod_eq_of_lt (by omega), Nat.testBit_two_pow_sub_one]
  exact decide_eq_decide.mpr (by omega)

/-- `((1 << b) - 1) | (1 << b)` is the same mask. -/
theorem lowMask_or {b : ℕ} (hb : b < width) :
    (2 ^ b - 1) ||| 2 ^ b = (2 ^ b - 1 + 2 ^ b) % 2 ^ width := by
  apply Nat.eq_of_testBit_eq
  intro i
  rw [testBit_lowMask hb, Nat.testBit_or, Nat.testBit_two_pow_sub_one, Nat.testBit_two_pow,
    ← Bool.decide_or]
  exact decide_eq_decide.mpr (by omega)

/-- `!((1 << b) - 1)` keeps the bits from `b` on. -/
theorem testBit_highMask {b i : ℕ} (hb : b < width) :
    ((2 ^ width - 1) ^^^ (2 ^ b - 1)).testBit i = decide (b ≤ i ∧ i < width) := by
  rw [Nat.testBit_xor, Nat.testBit_two_pow_sub_one, Nat.testBit_two_pow_sub_one]
  by_cases h1 : i < width <;> by_cases h2 : i < b <;> simp [h1, h2] <;> omega

/-! ### Toggling -/

/-- Toggling `c` changes the membership of `c` alone. -/
theorem bitAt_flip (hw : 0 < width) (words : ℤ → ℕ) (c x : ℤ) :
    bitAt width (Function.update words (c / width)
        (words (c / width) ^^^ 2 ^ (c % width).toNat)) x
      = (bitAt width words x ^^ decide (x = c)) := by
  have hwi : (0 : ℤ) < width := by exact_mod_cast hw
  have hx := Int.emod_add_mul_ediv x width
  have hc := Int.emod_add_mul_ediv c width
  have hx0 := Int.emod_nonneg x hwi.ne'
  have hc0 := Int.emod_nonneg c hwi.ne'
  by_cases hword : x / width = c / width
  · rw [bitAt, bitAt, hword, Function.update_self, Nat.testBit_xor, Nat.testBit_two_pow]
    congr 1
    refine decide_eq_decide.mpr ⟨fun h => ?_, fun h => by rw [h]⟩
    rw [← hx, ← hc, hword]
    omega
  · have hne : x ≠ c := fun h => hword (by rw [h])
    rw [bitAt, bitAt, Function.update_of_ne hword]
    simp [hne]

end Bits
