import Mathlib.Data.Int.Notation
import Mathlib.Tactic.Common

/-!
# Numbers read from text

The repository's TypeScript keeps amounts and prices as strings and reads them with `BigInt` and
`parseInt`. Both are functions of the language: what they accept is fixed by its grammar. Written
out by `toString`, a number keeps its value.

## Main definitions

* `Js.trim` — `String.prototype.trim`
* `Js.bigInt` — `BigInt(text)`; nothing where it throws a `SyntaxError`
* `Js.parseInt10` — `parseInt(text, 10)`; nothing where it is `NaN`
-/

namespace Swyft.Js

/-- White space and line terminators. -/
def isSpace (c : Char) : Bool :=
  [0x9, 0xA, 0xB, 0xC, 0xD, 0x20, 0xA0, 0x1680, 0x2028, 0x2029, 0x202F, 0x205F, 0x3000,
    0xFEFF].contains c.toNat || (0x2000 ≤ c.toNat && c.toNat ≤ 0x200A)

/-- `String.prototype.trim`, on the characters of a text. -/
def trim (cs : List Char) : List Char :=
  ((cs.dropWhile isSpace).reverse.dropWhile isSpace).reverse

/-- The value of a digit in a base up to sixteen. -/
def digit (base : ℕ) (c : Char) : Option ℕ :=
  let n :=
    if '0' ≤ c ∧ c ≤ '9' then c.toNat - '0'.toNat
    else if 'a' ≤ c ∧ c ≤ 'f' then c.toNat - 'a'.toNat + 10
    else if 'A' ≤ c ∧ c ≤ 'F' then c.toNat - 'A'.toNat + 10
    else base
  if n < base then some n else none

/-- The value of a list of digits, one at least. -/
def digits (base : ℕ) (cs : List Char) : Option ℕ :=
  if cs = [] then none
  else cs.foldlM (fun n c => (digit base c).map fun d => n * base + d) 0

/-- `BigInt(text)`, or nothing where it throws. The empty text is zero, a sign stands before
decimal digits only. -/
def bigInt (text : String) : Option ℤ :=
  match trim text.toList with
  | [] => some 0
  | '-' :: cs => (digits 10 cs).map fun n => -(n : ℤ)
  | '+' :: cs => (digits 10 cs).map fun n => (n : ℤ)
  | '0' :: 'x' :: cs | '0' :: 'X' :: cs => (digits 16 cs).map fun n => (n : ℤ)
  | '0' :: 'o' :: cs | '0' :: 'O' :: cs => (digits 8 cs).map fun n => (n : ℤ)
  | '0' :: 'b' :: cs | '0' :: 'B' :: cs => (digits 2 cs).map fun n => (n : ℤ)
  | cs => (digits 10 cs).map fun n => (n : ℤ)

/-- The decimal digits a text begins with. -/
def leadingDigits (cs : List Char) : List Char := cs.takeWhile fun c => (digit 10 c).isSome

/-- `parseInt(text, 10)`, or nothing where it is `NaN`: an optional sign and the longest run of
digits after leading white space, the rest being ignored. -/
def parseInt10 (text : String) : Option ℤ :=
  match text.toList.dropWhile isSpace with
  | '-' :: cs => (digits 10 (leadingDigits cs)).map fun n => -(n : ℤ)
  | '+' :: cs => (digits 10 (leadingDigits cs)).map fun n => (n : ℤ)
  | cs => (digits 10 (leadingDigits cs)).map fun n => (n : ℤ)

/-- Different numbers are written differently. -/
theorem toString_natCast_inj {a b : ℕ} : toString (a : ℤ) = toString (b : ℤ) ↔ a = b := by
  refine ⟨fun h => ?_, fun h => by rw [h]⟩
  have hdigits : Nat.toDigits 10 a = Nat.toDigits 10 b := String.ofList_injective h
  rw [← Nat.ofDigitChars_toDigits (b := 10) (n := a) (by decide) (by decide), hdigits,
    Nat.ofDigitChars_toDigits (by decide) (by decide)]

/-- A number that is written without a sign is not negative. -/
theorem toString_natCast_eq_iff {a : ℕ} {z : ℤ} : toString (a : ℤ) = toString z ↔ (a : ℤ) = z := by
  cases z with
  | ofNat b =>
    rw [Int.ofNat_eq_natCast, toString_natCast_inj, Int.natCast_inj]
  | negSucc n =>
    refine iff_of_false (fun h => ?_) (by omega)
    have hlist : Nat.toDigits 10 a = '-' :: (Nat.repr (n + 1)).toList := by
      have htext : Nat.repr a = "-" ++ Nat.repr (n + 1) := h
      rw [← Nat.toList_repr, htext]
      simp
    have hdigit := Nat.isDigit_of_mem_toDigits (b := 10) (n := a) (by decide) (by decide)
      (hlist ▸ List.mem_cons_self)
    revert hdigit
    decide

example : bigInt " -42\n" = some (-42) := by decide
example : bigInt "0x1F" = some 31 := by decide
example : bigInt "3000.5" = none := by decide
example : parseInt10 "3000.5" = some 3000 := by decide

end Swyft.Js
