import Swyft.JsNumber

/-!
# Amounts in base units

`toBaseUnits` and `fromBaseUnits` of `apps/api/src/swaps/swaps.service.ts` stand between the amounts
of the API, which are decimal texts, and those of the contracts, which are whole numbers. Writing
pads the fraction on the left, drops the zeros at its end, and the point where nothing is left of
it; reading pads on the right and cuts. A text is a list of characters.

## Main definitions

* `toBaseUnits`, `fromBaseUnits` — the functions; reading fails where `BigInt` throws

## Main results

* `value_paddedFraction` — the digits after the point before zeros are dropped
* `take_stripZeros` — the zeros that are dropped are put back
* `toBaseUnits_fromBaseUnits` — nothing is lost
-/

namespace Swyft.Swaps

open Js

/-! ### The source functions -/

/-- `text || '0'`. -/
def orZero (cs : List Char) : List Char := if cs = [] then ['0'] else cs

/-- `toBaseUnits`. What stands after a second point is not looked at. -/
def toBaseUnits (amount : List Char) (decimals : ℕ) : Option ℤ := do
  let pieces := amount.splitOn '.'
  let whole := pieces.getD 0 []
  let frac := pieces.getD 1 []
  let paddedFrac := (frac ++ List.replicate decimals '0').take decimals
  let units ← bigInt (String.ofList (orZero whole))
  let rest ← bigInt (String.ofList (orZero paddedFrac))
  pure (units * 10 ^ decimals + rest)

/-- `text.padStart(width, '0')`. -/
def padStart (width : ℕ) (cs : List Char) : List Char :=
  List.replicate (width - cs.length) '0' ++ cs

/-- `text.replace(/0+$/, '')`. -/
def stripZeros (cs : List Char) : List Char := (cs.reverse.dropWhile (· = '0')).reverse

/-- `fromBaseUnits`. -/
def fromBaseUnits (amount : ℤ) (decimals : ℕ) : List Char :=
  let divisor := 10 ^ decimals
  let whole := amount.tdiv divisor
  let frac := stripZeros (padStart decimals (toString (amount.tmod divisor)).toList)
  if frac = [] then (toString whole).toList else (toString whole).toList ++ '.' :: frac

variable {n d : ℕ} {cs : List Char}

/-! ### Digits -/

theorem toList_toString_natCast (n : ℕ) : (toString (n : ℤ)).toList = Nat.toDigits 10 n :=
  Nat.toList_repr

theorem bigInt_ofList (h : AllDigits cs) :
    bigInt (String.ofList cs) = some (Nat.ofDigitChars 10 cs 0 : ℤ) := by
  have hlist : (String.ofList cs).toList = cs := String.toList_ofList
  rw [bigInt_of_allDigits (by rwa [hlist]), hlist]

/-- The digits of the fraction, as many as there are decimals, zeros included. -/
def paddedFraction (n d : ℕ) : List Char := padStart d (Nat.toDigits 10 (n % 10 ^ d))

theorem isDigit_of_mem_paddedFraction {c : Char} (h : c ∈ paddedFraction n d) : c.isDigit := by
  rcases List.mem_append.mp h with h | h
  · rw [List.eq_of_mem_replicate h]
    decide
  · exact (allDigits_toDigits _).2 c h

/-- The digits of the fraction stand for it. -/
theorem value_paddedFraction (n d : ℕ) :
    Nat.ofDigitChars 10 (paddedFraction n d) 0 = n % 10 ^ d := by
  rw [paddedFraction, padStart, Nat.ofDigitChars_append, Nat.ofDigitChars_replicate_zero,
    Nat.mul_zero, Nat.ofDigitChars_ten_toDigits]

theorem length_paddedFraction (hd : 0 < d) : (paddedFraction n d).length = d := by
  have hlt : n % 10 ^ d < 10 ^ d := Nat.mod_lt n (Nat.pow_pos (by decide))
  have hle := (Nat.length_toDigits_le_iff (by decide) hd).mpr hlt
  rw [paddedFraction, padStart, List.length_append, List.length_replicate]
  omega

/-! ### Zeros at the end -/

/-- What is dropped is a run of zeros. -/
theorem exists_stripZeros (cs : List Char) : ∃ k, cs = stripZeros cs ++ List.replicate k '0' := by
  have hall := List.all_takeWhile (p := (· = '0')) (l := cs.reverse)
  have hzeros : cs.reverse.takeWhile (· = '0')
      = List.replicate (cs.reverse.takeWhile (· = '0')).length '0' :=
    List.eq_replicate_iff.mpr ⟨rfl, fun c hc => by simpa using List.all_eq_true.mp hall c hc⟩
  refine ⟨(cs.reverse.takeWhile (· = '0')).length, ?_⟩
  calc cs = (cs.reverse.takeWhile (· = '0') ++ cs.reverse.dropWhile (· = '0')).reverse := by
        rw [List.takeWhile_append_dropWhile, List.reverse_reverse]
    _ = stripZeros cs ++ (cs.reverse.takeWhile (· = '0')).reverse := List.reverse_append
    _ = stripZeros cs ++ List.replicate (cs.reverse.takeWhile (· = '0')).length '0' := by
        conv_lhs => rw [hzeros, List.reverse_replicate]

theorem mem_of_mem_stripZeros {c : Char} (h : c ∈ stripZeros cs) : c ∈ cs := by
  rw [stripZeros, List.mem_reverse] at h
  exact List.mem_reverse.mp (List.dropWhile_subset _ h)

/-- Zeros that are dropped at the end are put back. -/
theorem take_stripZeros (hd : cs.length = d) :
    (stripZeros cs ++ List.replicate d '0').take d = cs := by
  obtain ⟨k, hk⟩ := exists_stripZeros cs
  have hlength := congrArg List.length hk
  rw [List.length_append, List.length_replicate, hd] at hlength
  rw [List.take_append, List.take_of_length_le (by omega), List.take_replicate,
    show min (d - (stripZeros cs).length) d = k by omega]
  exact hk.symm

/-! ### There and back -/

theorem not_mem_of_digits (h : ∀ c ∈ cs, c.isDigit) : '.' ∉ cs := fun hmem =>
  absurd (h '.' hmem) (by decide)

/-- A text with a point if there is a fraction. -/
def pointed (whole frac : List Char) : List Char :=
  if frac = [] then whole else whole ++ '.' :: frac

theorem fromBaseUnits_eq (n d : ℕ) :
    fromBaseUnits n d
      = pointed (Nat.toDigits 10 (n / 10 ^ d)) (stripZeros (paddedFraction n d)) := by
  have hdivisor : (10 : ℤ) ^ d = ((10 ^ d : ℕ) : ℤ) := by push_cast; rfl
  simp only [fromBaseUnits, hdivisor, ← Int.ofNat_tdiv, ← Int.ofNat_tmod, toList_toString_natCast]
  rfl

/-- What a text with digits on both sides of the point is read as. -/
theorem toBaseUnits_pointed {whole frac : List Char} (hwhole : AllDigits whole)
    (hfrac : ∀ c ∈ frac, c.isDigit) :
    toBaseUnits (pointed whole frac) d
      = (bigInt (String.ofList (orZero ((frac ++ List.replicate d '0').take d)))).map
          fun rest => (Nat.ofDigitChars 10 whole 0 : ℤ) * 10 ^ d + rest := by
  have hpieces : ((pointed whole frac).splitOn '.').getD 0 [] = whole ∧
      ((pointed whole frac).splitOn '.').getD 1 [] = frac := by
    rw [pointed]
    split
    case isTrue hnil =>
      rw [List.splitOn_eq_singleton (not_mem_of_digits hwhole.2)]
      exact ⟨rfl, hnil.symm⟩
    case isFalse =>
      rw [List.splitOn_append_cons_self_of_not_mem (not_mem_of_digits hwhole.2),
        List.splitOn_eq_singleton (not_mem_of_digits hfrac)]
      exact ⟨rfl, rfl⟩
  rw [toBaseUnits, hpieces.1, hpieces.2, orZero, if_neg hwhole.1, bigInt_ofList hwhole]
  cases bigInt (String.ofList (orZero ((frac ++ List.replicate d '0').take d))) <;> rfl

/-- The decimals that are read are those that were written. -/
theorem bigInt_fraction (n d : ℕ) :
    bigInt (String.ofList (orZero
      ((stripZeros (paddedFraction n d) ++ List.replicate d '0').take d)))
        = some ((n % 10 ^ d : ℕ) : ℤ) := by
  rcases Nat.eq_zero_or_pos d with rfl | hd
  · rw [List.take_zero, Nat.pow_zero, Nat.mod_one]
    rfl
  · have hlength := length_paddedFraction (n := n) hd
    have hne : paddedFraction n d ≠ [] := by
      rintro hnil
      rw [hnil] at hlength
      exact hd.ne hlength
    rw [take_stripZeros hlength, orZero, if_neg hne,
      bigInt_ofList ⟨hne, fun c hc => isDigit_of_mem_paddedFraction hc⟩, value_paddedFraction]

/-- **Nothing is lost**: what a number of base units is written as is read as this number. -/
theorem toBaseUnits_fromBaseUnits (n d : ℕ) : toBaseUnits (fromBaseUnits n d) d = some (n : ℤ) := by
  rw [fromBaseUnits_eq, toBaseUnits_pointed (allDigits_toDigits _)
    fun c hc => isDigit_of_mem_paddedFraction (mem_of_mem_stripZeros hc), bigInt_fraction,
    Nat.ofDigitChars_ten_toDigits]
  show some (((n / 10 ^ d : ℕ) : ℤ) * 10 ^ d + ((n % 10 ^ d : ℕ) : ℤ)) = _
  have hdivision : n / 10 ^ d * 10 ^ d + n % 10 ^ d = n := Nat.div_add_mod' n (10 ^ d)
  rw [Option.some_inj]
  exact_mod_cast hdivision

example : fromBaseUnits 1050000 7 = "0.105".toList := by decide
example : toBaseUnits "3.14159".toList 2 = some 314 := by decide

end Swyft.Swaps
