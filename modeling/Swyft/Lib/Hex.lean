import Mathlib.Data.List.Basic

/-!
# Hexadecimal digits

A byte is written as two digits, with small letters. Reading takes either case, and stops at the
first pair that is not of digits.

## Main results

* `Hex.decode_encode` — reading what was written
* `Hex.decode_eq_iff` — the texts that are read as given bytes
-/

namespace Hex

/-- The digit of four bits. -/
def digit (n : ℕ) : Char :=
  if n < 10 then Char.ofNat ('0'.toNat + n) else Char.ofNat ('a'.toNat + (n - 10))

/-- The four bits of a digit, in either case. -/
def nibble (c : Char) : Option ℕ :=
  if '0' ≤ c ∧ c ≤ '9' then some (c.toNat - '0'.toNat)
  else if 'a' ≤ c ∧ c ≤ 'f' then some (c.toNat - 'a'.toNat + 10)
  else if 'A' ≤ c ∧ c ≤ 'F' then some (c.toNat - 'A'.toNat + 10)
  else none

theorem nibble_digit {n : ℕ} (h : n < 16) : nibble (digit n) = some n := by
  have hall : ∀ n : Fin 16, nibble (digit n) = some n.val := by decide
  exact hall ⟨n, h⟩

/-- A digit is a character below 128. -/
theorem toNat_lt_of_nibble {c : Char} {n : ℕ} (h : nibble c = some n) : c.toNat < 128 := by
  have hle : ∀ d : Char, c ≤ d → c.toNat ≤ d.toNat := fun d hd => UInt32.le_iff_toNat_le.mp hd
  unfold nibble at h
  split at h
  case isTrue hc => exact Nat.lt_of_le_of_lt (hle _ hc.2) (by decide)
  case isFalse =>
    split at h
    case isTrue hc => exact Nat.lt_of_le_of_lt (hle _ hc.2) (by decide)
    case isFalse =>
      split at h
      case isTrue hc => exact Nat.lt_of_le_of_lt (hle _ hc.2) (by decide)
      case isFalse => cases h

/-- The digit that was read, with a small letter. -/
theorem digit_of_nibble {c : Char} {n : ℕ} (h : nibble c = some n) :
    n < 16 ∧ digit n = c.toLower := by
  have hall : ∀ i : Fin 128, ∀ n ∈ nibble (Char.ofNat i), n < 16 ∧
      digit n = (Char.ofNat i).toLower := by decide +kernel
  have hc := hall ⟨c.toNat, toNat_lt_of_nibble h⟩ n
  rw [Char.ofNat_toNat] at hc
  exact hc h

/-- The case of a digit makes no difference. -/
theorem nibble_toLower (c : Char) : nibble c.toLower = nibble c := by
  by_cases hc : c.toNat < 128
  · have hall : ∀ i : Fin 128, nibble (Char.ofNat i).toLower = nibble (Char.ofNat i) := by
      decide +kernel
    have hlower := hall ⟨c.toNat, hc⟩
    rwa [Char.ofNat_toNat] at hlower
  · have hsame : c.toLower = c := by
      delta Char.toLower
      rw [dif_neg]
      rintro ⟨-, hle⟩
      have hle : c.toNat ≤ 90 := UInt32.le_iff_toNat_le.mp hle
      omega
    rw [hsame]

/-- The digits of bytes. -/
def encode : List UInt8 → List Char
  | [] => []
  | a :: rest => digit (a.toNat / 16) :: digit (a.toNat % 16) :: encode rest

/-- The bytes of a text. -/
def decode : List Char → List UInt8
  | c :: d :: rest =>
    match nibble c, nibble d with
    | some x, some y => UInt8.ofNat (16 * x + y) :: decode rest
    | _, _ => []
  | _ => []

theorem length_encode (data : List UInt8) : (encode data).length = 2 * data.length := by
  induction data with
  | nil => rfl
  | cons a rest ih =>
    rw [encode, List.length_cons, List.length_cons, List.length_cons, ih]
    omega

/-- What is written are digits. -/
theorem isSome_of_mem_encode {data : List UInt8} {c : Char} (h : c ∈ encode data) :
    (nibble c).isSome := by
  induction data with
  | nil => cases h
  | cons a rest ih =>
    have ha := a.toNat_lt
    simp only [encode, List.mem_cons] at h
    rcases h with rfl | rfl | h
    · rw [nibble_digit (by omega)]
      rfl
    · rw [nibble_digit (by omega)]
      rfl
    · exact ih h

/-- **Reading what was written.** -/
theorem decode_encode (data : List UInt8) : decode (encode data) = data := by
  induction data with
  | nil => rfl
  | cons a rest ih =>
    have ha := a.toNat_lt
    simp only [encode, decode, nibble_digit (show a.toNat / 16 < 16 by omega),
      nibble_digit (show a.toNat % 16 < 16 by omega), ih]
    rw [Nat.div_add_mod, UInt8.ofNat_toNat]

/-- Writing what was read, of an even number of digits. -/
theorem encode_decode : (text : List Char) → 2 ∣ text.length →
    (∀ c ∈ text, (nibble c).isSome) → encode (decode text) = text.map Char.toLower
  | [], _, _ => rfl
  | [_], hlength, _ => by simp at hlength
  | c :: d :: rest, hlength, hdigits => by
    obtain ⟨x, hx⟩ := Option.isSome_iff_exists.mp (hdigits c (by simp))
    obtain ⟨y, hy⟩ := Option.isSome_iff_exists.mp (hdigits d (by simp))
    obtain ⟨hx16, hc⟩ := digit_of_nibble hx
    obtain ⟨hy16, hd⟩ := digit_of_nibble hy
    have ih := encode_decode rest (by rw [List.length_cons, List.length_cons] at hlength; omega)
      fun e he => hdigits e (by simp [he])
    have hbyte : (UInt8.ofNat (16 * x + y)).toNat = 16 * x + y := by
      rw [UInt8.toNat_ofNat']
      omega
    simp only [decode, hx, hy, encode, hbyte, ih, List.map_cons]
    rw [show (16 * x + y) / 16 = x by omega, show (16 * x + y) % 16 = y by omega, hc, hd]

/-- What is written has small letters. -/
theorem map_toLower_encode (data : List UInt8) :
    (encode data).map Char.toLower = encode data := by
  have h := encode_decode (encode data) ⟨_, length_encode data⟩ fun _ hc => isSome_of_mem_encode hc
  rw [decode_encode] at h
  exact h.symm

/-- **The texts of given bytes** are those that are written for them, but for the case of the
letters. -/
theorem decode_eq_iff {text : List Char} {data : List UInt8} (hlength : 2 ∣ text.length)
    (hdigits : ∀ c ∈ text, (nibble c).isSome) :
    decode text = data ↔ text.map Char.toLower = encode data := by
  rw [← encode_decode text hlength hdigits]
  constructor
  · rintro rfl
    rfl
  · intro h
    rw [← decode_encode (decode text), h, decode_encode]

end Hex
