import Mathlib.Data.List.Basic

/-!
# Base64 with the URL alphabet

Three bytes are written as four characters of six bits each, and a last one or two bytes as two or
three characters without padding. Reading takes the characters of either alphabet and passes over
any other.

## Main results

* `Base64.decode_encode` — reading what was written
-/

namespace Base64

/-- The character of six bits: letters, digits and two signs. -/
def char (n : ℕ) : Char :=
  if n < 26 then Char.ofNat ('A'.toNat + n)
  else if n < 52 then Char.ofNat ('a'.toNat + (n - 26))
  else if n < 62 then Char.ofNat ('0'.toNat + (n - 52))
  else if n = 62 then '-' else '_'

/-- The six bits of a character, in either alphabet. -/
def sextet (c : Char) : Option ℕ :=
  if 'A' ≤ c ∧ c ≤ 'Z' then some (c.toNat - 'A'.toNat)
  else if 'a' ≤ c ∧ c ≤ 'z' then some (c.toNat - 'a'.toNat + 26)
  else if '0' ≤ c ∧ c ≤ '9' then some (c.toNat - '0'.toNat + 52)
  else if c = '-' ∨ c = '+' then some 62
  else if c = '_' ∨ c = '/' then some 63 else none

theorem sextet_char {n : ℕ} (h : n < 64) : sextet (char n) = some n := by
  have hall : ∀ n : Fin 64, sextet (char n) = some n.val := by decide
  exact hall ⟨n, h⟩

/-- The characters of bytes. -/
def encode : List UInt8 → List Char
  | [] => []
  | [a] => [char (a.toNat / 4), char (a.toNat % 4 * 16)]
  | [a, b] =>
    [char (a.toNat / 4), char (a.toNat % 4 * 16 + b.toNat / 16), char (b.toNat % 16 * 4)]
  | a :: b :: c :: rest =>
    char (a.toNat / 4) :: char (a.toNat % 4 * 16 + b.toNat / 16)
      :: char (b.toNat % 16 * 4 + c.toNat / 64) :: char (c.toNat % 64) :: encode rest

/-- The bytes of groups of six bits; six bits alone make no byte. -/
def bytes : List ℕ → List UInt8
  | [] => []
  | [_] => []
  | [p, q] => [UInt8.ofNat (p * 4 + q / 16)]
  | [p, q, r] => [UInt8.ofNat (p * 4 + q / 16), UInt8.ofNat (q % 16 * 16 + r / 4)]
  | p :: q :: r :: s :: rest =>
    UInt8.ofNat (p * 4 + q / 16) :: UInt8.ofNat (q % 16 * 16 + r / 4)
      :: UInt8.ofNat (r % 4 * 64 + s) :: bytes rest

/-- The bytes of a text. -/
def decode (text : List Char) : List UInt8 := bytes (text.filterMap sextet)

theorem ofNat_eq {a : UInt8} {n : ℕ} (h : n = a.toNat) : UInt8.ofNat n = a := by
  rw [h, UInt8.ofNat_toNat]

/-- **Reading what was written.** -/
theorem decode_encode : (data : List UInt8) → decode (encode data) = data
  | [] => rfl
  | [a] => by
    have ha := a.toNat_lt
    rw [decode, encode]
    simp only [List.filterMap_cons, sextet_char (show a.toNat / 4 < 64 by omega),
      sextet_char (show a.toNat % 4 * 16 < 64 by omega), List.filterMap_nil, bytes]
    rw [ofNat_eq (a := a) (by omega)]
  | [a, b] => by
    have ha := a.toNat_lt
    have hb := b.toNat_lt
    rw [decode, encode]
    simp only [List.filterMap_cons, sextet_char (show a.toNat / 4 < 64 by omega),
      sextet_char (show a.toNat % 4 * 16 + b.toNat / 16 < 64 by omega),
      sextet_char (show b.toNat % 16 * 4 < 64 by omega), List.filterMap_nil, bytes]
    rw [ofNat_eq (a := a) (by omega), ofNat_eq (a := b) (by omega)]
  | a :: b :: c :: rest => by
    have ha := a.toNat_lt
    have hb := b.toNat_lt
    have hc := c.toNat_lt
    have ih := decode_encode rest
    rw [decode] at ih
    rw [decode, encode]
    simp only [List.filterMap_cons, sextet_char (show a.toNat / 4 < 64 by omega),
      sextet_char (show a.toNat % 4 * 16 + b.toNat / 16 < 64 by omega),
      sextet_char (show b.toNat % 16 * 4 + c.toNat / 64 < 64 by omega),
      sextet_char (show c.toNat % 64 < 64 by omega), bytes]
    rw [ih, ofNat_eq (a := a) (by omega), ofNat_eq (a := b) (by omega),
      ofNat_eq (a := c) (by omega)]

end Base64
