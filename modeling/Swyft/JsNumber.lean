import Swyft.Js
import Swyft.Lib.Doubles
import Swyft.Lib.Separators

/-!
# Numbers of the language

A number is a double: its arithmetic is rounded, and it is written with as few digits as tell it
from the other doubles. The two zeros are one here.

## Main definitions

* `Js.Number` — finite doubles, infinities and `NaN`
* `Js.toNumber`, `Js.parseFloat` — `Number(text)` and `parseFloat(text)`
* `Js.Number.toText` — `String(number)`
-/

namespace Swyft.Js

open Doubles

inductive Number where
  | finite (value : ℚ)
  | infinite (negative : Bool)
  | nan
  deriving DecidableEq

namespace Number

/-- The number nearest to a result, an infinity where it is too large. -/
def ofRat (q : ℚ) : Number :=
  if |Doubles.round q| < 2 ^ 1024 then finite (Doubles.round q) else infinite (q < 0)

/-- `Number.isFinite`. -/
def isFinite : Number → Bool
  | finite _ => true
  | _ => false

/-- `Math.abs`. -/
def abs : Number → Number
  | finite q => finite |q|
  | infinite _ => infinite false
  | nan => nan

/-- The sum of two numbers. -/
def add : Number → Number → Number
  | finite p, finite q => ofRat (p + q)
  | infinite s, infinite t => if s = t then infinite s else nan
  | infinite s, finite _ | finite _, infinite s => infinite s
  | nan, _ | _, nan => nan

/-- The product of two numbers. -/
def mul : Number → Number → Number
  | finite p, finite q => ofRat (p * q)
  | infinite s, finite q | finite q, infinite s => if q = 0 then nan else infinite (s != (q < 0))
  | infinite s, infinite t => infinite (s != t)
  | nan, _ | _, nan => nan

/-- The quotient of a number by a positive one. -/
def divPos (x : Number) (d : ℚ) : Number :=
  match x with
  | finite q => ofRat (q / d)
  | x => x

end Number

/-! ### Texts as numbers -/

/-- A sign, and what follows it. -/
def sign : List Char → Bool × List Char
  | '-' :: cs => (true, cs)
  | '+' :: cs => (false, cs)
  | cs => (false, cs)

/-- The value of digits, none of which may be missing. -/
def digitsValue (cs : List Char) : ℕ := (digits 10 cs).getD 0

/-- The exponent that stands at the beginning of a text, and what follows it. -/
def exponentPart (cs : List Char) : ℤ × List Char :=
  match cs with
  | c :: rest =>
    let (negative, rest) := sign rest
    let ds := leadingDigits rest
    if (c = 'e' ∨ c = 'E') ∧ ds ≠ [] then
      (if negative then -(digitsValue ds : ℤ) else digitsValue ds, rest.drop ds.length)
    else (0, cs)
  | [] => (0, [])

/-- The decimal number that stands at the beginning of a text, and what follows it. -/
def decimalPart (cs : List Char) : Option (Number × List Char) :=
  let (negative, cs) := sign cs
  let infinity := "Infinity".toList
  if infinity <+: cs then some (.infinite negative, cs.drop infinity.length)
  else
    let whole := leadingDigits cs
    let (fraction, rest) := match cs.drop whole.length with
      | '.' :: rest => (leadingDigits rest, rest.drop (leadingDigits rest).length)
      | rest => ([], rest)
    if whole = [] ∧ fraction = [] then none
    else
      let (e, rest) := exponentPart rest
      let value : ℚ := digitsValue (whole ++ fraction) * 10 ^ (e - fraction.length)
      some (.ofRat (if negative then -value else value), rest)

/-- `Number(text)`. -/
def toNumber (text : String) : Number :=
  match bigInt text, decimalPart (trim text.toList) with
  | some z, _ => .ofRat z
  | none, some (x, []) => x
  | none, _ => .nan

/-- `parseFloat(text)`. -/
def parseFloat (text : String) : Number :=
  match decimalPart (text.toList.dropWhile isSpace) with
  | some (x, _) => x
  | none => .nan

/-! ### Numbers as texts -/

/-- Where the point stands in a positive number, before its first digit being zero. -/
def point (x : ℚ) : ℤ := Int.log 10 x + 1

/-- The first `k` digits, rounded so that they are read as the number again: the nearest ones if
they are, else the ones below or above. -/
def digitsAt (x : ℚ) (k : ℕ) : Option ℤ :=
  let y := x / 10 ^ (point x - k)
  [nearest y, ⌊y⌋, ⌊y⌋ + 1].find? fun s => Doubles.round (s * 10 ^ (point x - k)) = x

/-- The first number of digits from `k` on that are read as the number again. -/
def searchDigits (x : ℚ) : ℕ → ℕ → Option (ℕ × ℕ)
  | 0, _ => none
  | fuel + 1, k =>
    match digitsAt x k with
    | some s => some (s.toNat, k)
    | none => searchDigits x fuel (k + 1)

/-- The fewest digits that are read as the number again, and how many they are. No double has more
digits than are tried here, and seventeen are always enough. -/
def shortest (x : ℚ) : Option (ℕ × ℕ) := searchDigits x 1400 1

/-- Digits with an exponent. -/
def scientific (ds : List Char) (e : ℤ) : List Char :=
  ds.take 1 ++ (if ds.length = 1 then [] else '.' :: ds.drop 1) ++
    'e' :: (if e < 0 then '-' else '+') :: Nat.toDigits 10 e.natAbs

/-- Digits with the point at a place, as `Number::toString` writes them. -/
def layout (ds : List Char) (n : ℤ) : List Char :=
  let k : ℤ := ds.length
  if k ≤ n ∧ n ≤ 21 then ds ++ List.replicate (n - k).toNat '0'
  else if 0 < n ∧ n ≤ 21 then ds.take n.toNat ++ '.' :: ds.drop n.toNat
  else if -6 < n ∧ n ≤ 0 then '0' :: '.' :: (List.replicate (-n).toNat '0' ++ ds)
  else scientific ds (n - 1)

/-- The text of a positive double. Digits that round up to the next power of ten are a one with the
point moved. -/
def positiveText (x : ℚ) : List Char :=
  match shortest x with
  | some (s, k) =>
    if s = 10 ^ k then layout ['1'] (point x + 1) else layout (Nat.toDigits 10 s) (point x)
  | none => "NaN".toList

/-- `String(number)`. -/
def Number.toText : Number → List Char
  | .finite q => if q = 0 then ['0'] else if q < 0 then '-' :: positiveText (-q) else positiveText q
  | .infinite negative => if negative then "-Infinity".toList else "Infinity".toList
  | .nan => "NaN".toList

/-! ### Which numbers are written with digits only -/

variable {x : ℚ} {k : ℕ} {s : ℤ}

theorem zpow_point_le (hx : 0 < x) : (10 : ℚ) ^ (point x - 1) ≤ x := by
  simpa [point] using Int.zpow_log_le_self (b := 10) (by norm_num) hx

theorem lt_zpow_point (x : ℚ) : x < 10 ^ point x := by
  simpa [point] using Int.lt_zpow_succ_log_self (b := 10) (by norm_num) x

theorem point_pos (hx : 1 ≤ x) : 0 < point x := by
  by_contra hle
  have hle : (10 : ℚ) ^ point x ≤ 10 ^ (0 : ℤ) :=
    zpow_le_zpow_right₀ (by norm_num) (not_lt.mp hle)
  rw [zpow_zero] at hle
  exact absurd (hx.trans_lt (lt_zpow_point x)) (not_lt.mpr hle)

/-- The digits of a number, and what they are read as. -/
theorem digitsAt_spec (hx : 0 < x) (hk : 1 ≤ k) (h : digitsAt x k = some s) :
    10 ^ (k - 1) ≤ s ∧ s ≤ 10 ^ k ∧ Doubles.round (s * 10 ^ (point x - k)) = x := by
  have hread : Doubles.round (s * 10 ^ (point x - k)) = x := by
    simpa using List.find?_some h
  have hpow : (0 : ℚ) < 10 ^ (point x - k) := zpow_pos (by norm_num) _
  have hlow : (10 : ℤ) ^ (k - 1) ≤ ⌊x / 10 ^ (point x - k)⌋ := by
    rw [Int.le_floor, le_div_iff₀ hpow]
    push_cast
    rw [← zpow_natCast, ← zpow_add₀ (by norm_num), Nat.cast_sub hk,
      show ((k : ℤ) - (1 : ℕ)) + (point x - k) = point x - 1 by push_cast; ring]
    exact zpow_point_le hx
  have hhigh : ⌊x / 10 ^ (point x - k)⌋ < (10 : ℤ) ^ k := by
    rw [Int.floor_lt, div_lt_iff₀ hpow]
    push_cast
    rw [← zpow_natCast, ← zpow_add₀ (by norm_num), add_sub_cancel]
    exact lt_zpow_point x
  have hmem := List.mem_of_find?_eq_some h
  have hs : s = ⌊x / 10 ^ (point x - k)⌋ ∨ s = ⌊x / 10 ^ (point x - k)⌋ + 1 := by
    simp only [List.mem_cons, List.not_mem_nil, or_false] at hmem
    rcases hmem with rfl | hmem
    · exact nearest_eq_or _
    · exact hmem
  rcases hs with rfl | rfl
  · exact ⟨hlow, hhigh.le, hread⟩
  · exact ⟨by omega, hhigh, hread⟩

theorem searchDigits_spec {fuel start digits : ℕ}
    (h : searchDigits x fuel start = some (digits, k)) :
    start ≤ k ∧ ∃ s, digitsAt x k = some s ∧ digits = s.toNat := by
  induction fuel generalizing start with
  | zero => exact absurd h (by simp [searchDigits])
  | succ fuel ih =>
    rw [searchDigits] at h
    cases hdigits : digitsAt x start with
    | some s =>
      rw [hdigits] at h
      obtain ⟨rfl, rfl⟩ := Prod.mk.inj (Option.some.inj h)
      exact ⟨le_rfl, s, hdigits, rfl⟩
    | none =>
      rw [hdigits] at h
      obtain ⟨hle, hs⟩ := ih h
      exact ⟨Nat.le_of_succ_le hle, hs⟩

theorem exists_searchDigits {fuel start : ℕ} (hstart : start ≤ k) (hfuel : k < start + fuel)
    (h : (digitsAt x k).isSome) :
    ∃ digits j, searchDigits x fuel start = some (digits, j) ∧ j ≤ k := by
  induction fuel generalizing start with
  | zero => omega
  | succ fuel ih =>
    rw [searchDigits]
    cases hdigits : digitsAt x start with
    | some s => exact ⟨s.toNat, start, rfl, hstart⟩
    | none =>
      have hne : start ≠ k := by
        rintro rfl
        rw [hdigits] at h
        exact absurd h (by decide)
      exact ih (by omega) (by omega)

/-- What is found is the shortest. -/
theorem shortest_spec {digits : ℕ} (h : shortest x = some (digits, k)) :
    1 ≤ k ∧ ∃ s, digitsAt x k = some s ∧ digits = s.toNat :=
  searchDigits_spec h

/-- Where some number of digits will do, the shortest has no more. -/
theorem exists_shortest (hk : 1 ≤ k) (hmax : k ≤ 1400) (h : (digitsAt x k).isSome) :
    ∃ digits j, shortest x = some (digits, j) ∧ j ≤ k :=
  exists_searchDigits hk (by omega) h

/-- All digits of a whole number will do. -/
theorem isSome_digitsAt_intCast {m : ℤ} (hdouble : Doubles.round m = m) {n : ℕ}
    (hn : point (m : ℚ) = n) : (digitsAt (m : ℚ) n).isSome := by
  rw [digitsAt, List.find?_isSome]
  refine ⟨m, ?_, ?_⟩
  · rw [hn, sub_self, zpow_zero, div_one, nearest_intCast]
    exact List.mem_cons_self
  · rw [hn, sub_self, zpow_zero, mul_one, hdouble]
    exact decide_eq_true rfl

/-! ### Digits only -/

/-- A text of decimal digits, one at least. -/
def AllDigits (cs : List Char) : Prop := cs ≠ [] ∧ ∀ c ∈ cs, c.isDigit

theorem allDigits_toDigits (n : ℕ) : AllDigits (Nat.toDigits 10 n) :=
  ⟨Nat.toDigits_ne_nil, fun _ h => Nat.isDigit_of_mem_toDigits (by decide) (by decide) h⟩

/-- Where digits are written without a point and an exponent. -/
theorem allDigits_layout_iff {ds : List Char} (hds : AllDigits ds) {n : ℤ} :
    AllDigits (layout ds n) ↔ ds.length ≤ n ∧ n ≤ 21 := by
  have hmark {c : Char} {cs : List Char} (hc : ¬ c.isDigit) (hmem : c ∈ cs) : ¬ AllDigits cs :=
    fun h => hc (h.2 c hmem)
  constructor
  · intro h
    by_contra hout
    rw [layout, if_neg hout] at h
    split at h
    · exact hmark (c := '.') (by decide) (by simp) h
    split at h
    · exact hmark (c := '.') (by decide) (by simp) h
    · exact hmark (c := 'e') (by decide) (by simp [scientific]) h
  · intro h
    rw [layout, if_pos h]
    refine ⟨by simp [hds.1], fun c hc => ?_⟩
    rcases List.mem_append.mp hc with hc | hc
    · exact hds.2 c hc
    · rw [List.eq_of_mem_replicate hc]
      decide

theorem length_toDigits {n : ℕ} (hk : 1 ≤ k) (hlow : 10 ^ (k - 1) ≤ n) (hhigh : n < 10 ^ k) :
    (Nat.toDigits 10 n).length = k := by
  refine le_antisymm ((Nat.length_toDigits_le_iff (by decide) hk).mpr hhigh) ?_
  rcases Nat.eq_or_lt_of_le hk with rfl | hk
  · exact Nat.length_toDigits_pos
  · by_contra hlt
    have hshort : n < 10 ^ (k - 1) :=
      (Nat.length_toDigits_le_iff (by decide) (by omega)).mp (by omega)
    omega

/-! ### Digits read back -/

theorem not_isSpace_of_isDigit {c : Char} (h : c.isDigit) : isSpace c = false := by
  have hbounds : 48 ≤ c.toNat ∧ c.toNat ≤ 57 := by
    simpa [Char.isDigit, UInt32.le_iff_toNat_le] using h
  have hnot : ∀ n ∈ [0x9, 0xA, 0xB, 0xC, 0xD, 0x20, 0xA0, 0x1680, 0x2028, 0x2029, 0x202F, 0x205F,
      0x3000, 0xFEFF], c.toNat ≠ n := by
    intro n hn heq
    simp only [List.mem_cons, List.not_mem_nil, or_false] at hn
    omega
  simp only [isSpace, Bool.or_eq_false_iff, Bool.and_eq_false_iff, decide_eq_false_iff_not]
  refine ⟨?_, Or.inl (by omega)⟩
  rw [List.contains_eq_any_beq, List.any_eq_false]
  intro n hn
  simpa using hnot n hn

theorem trim_eq_self {cs : List Char} (h : ∀ c ∈ cs, isSpace c = false) : trim cs = cs := by
  have hdrop (l : List Char) (hl : ∀ c ∈ l, isSpace c = false) : l.dropWhile isSpace = l := by
    cases l with
    | nil => rfl
    | cons c l => rw [List.dropWhile_cons_of_neg (by simp [hl c List.mem_cons_self])]
  rw [trim, hdrop cs h, hdrop _ (fun c hc => h c (List.mem_reverse.mp hc)), List.reverse_reverse]

theorem digit_of_isDigit {c : Char} (h : c.isDigit) : digit 10 c = some (c.toNat - '0'.toNat) := by
  have hbounds : '0' ≤ c ∧ c ≤ '9' := by
    simpa [Char.isDigit, Char.le_def] using h
  have hlt : c.toNat - '0'.toNat < 10 := by
    have : c.toNat ≤ 57 := by simpa [Char.le_def, UInt32.le_iff_toNat_le] using hbounds.2
    have : '0'.toNat = 48 := rfl
    omega
  simp only [digit, if_pos hbounds, if_pos hlt]

theorem digits_of_allDigits {cs : List Char} (h : AllDigits cs) :
    digits 10 cs = some (Nat.ofDigitChars 10 cs 0) := by
  have hfold (l : List Char) (hl : ∀ c ∈ l, c.isDigit) (n : ℕ) :
      l.foldlM (fun n c => (digit 10 c).map fun d => n * 10 + d) n
        = some (Nat.ofDigitChars 10 l n) := by
    induction l generalizing n with
    | nil => rfl
    | cons c l ih =>
      rw [List.foldlM_cons, digit_of_isDigit (hl c List.mem_cons_self), Nat.ofDigitChars_cons,
        Nat.mul_comm 10 n]
      exact ih (fun c hc => hl c (List.mem_cons_of_mem _ hc)) _
  rw [digits, if_neg h.1, hfold cs h.2 0]

/-- **A text of digits is read as its value.** -/
theorem bigInt_of_allDigits {text : String} (h : AllDigits text.toList) :
    bigInt text = some (Nat.ofDigitChars 10 text.toList 0 : ℤ) := by
  have hdigits := digits_of_allDigits h
  rw [bigInt, trim_eq_self fun c hc => not_isSpace_of_isDigit (h.2 c hc)]
  -- the other branches begin with a character that is no digit
  split
  case h_1 hnil => exact absurd hnil h.1
  case h_2 hcs => exact absurd (h.2 '-' (by simp [hcs])) (by decide)
  case h_3 hcs => exact absurd (h.2 '+' (by simp [hcs])) (by decide)
  case h_4 hcs => exact absurd (h.2 'x' (by simp [hcs])) (by decide)
  case h_5 hcs => exact absurd (h.2 'X' (by simp [hcs])) (by decide)
  case h_6 hcs => exact absurd (h.2 'o' (by simp [hcs])) (by decide)
  case h_7 hcs => exact absurd (h.2 'O' (by simp [hcs])) (by decide)
  case h_8 hcs => exact absurd (h.2 'b' (by simp [hcs])) (by decide)
  case h_9 hcs => exact absurd (h.2 'B' (by simp [hcs])) (by decide)
  case h_10 =>
    rw [hdigits]
    rfl

/-- A sign before the digits. -/
theorem bigInt_of_negative {text : String} {cs : List Char} (htext : text.toList = '-' :: cs)
    (h : AllDigits cs) : bigInt text = some (-(Nat.ofDigitChars 10 cs 0 : ℤ)) := by
  have hspace : ∀ c ∈ '-' :: cs, isSpace c = false := by
    intro c hc
    rcases List.mem_cons.mp hc with rfl | hc
    · decide
    · exact not_isSpace_of_isDigit (h.2 c hc)
  rw [bigInt, htext, trim_eq_self hspace]
  simp only [digits_of_allDigits h]
  rfl

/-- The text of a number, the digits and the point. -/
theorem exists_layout {digits : ℕ} (hx : 0 < x) (h : shortest x = some (digits, k)) :
    ∃ ds n, positiveText x = layout ds n ∧ AllDigits ds ∧
      Doubles.round (Nat.ofDigitChars 10 ds 0 * 10 ^ (n - ds.length)) = x ∧
      ((ds.length = k ∧ n = point x) ∨
        (ds.length = 1 ∧ n = point x + 1 ∧ Doubles.round (10 ^ point x) = x)) := by
  obtain ⟨hk, s, hs, rfl⟩ := shortest_spec h
  obtain ⟨hlow, hhigh, hread⟩ := digitsAt_spec hx hk hs
  obtain ⟨d, rfl⟩ := Int.eq_ofNat_of_zero_le ((by positivity : (0 : ℤ) ≤ 10 ^ (k - 1)).trans hlow)
  simp only [positiveText, h]
  show ∃ ds n, (if d = 10 ^ k then layout ['1'] (point x + 1)
    else layout (Nat.toDigits 10 d) (point x)) = layout ds n ∧ _
  split
  case isTrue hten =>
    have hround : Doubles.round (10 ^ point x) = x := by
      rw [hten] at hread
      push_cast at hread
      rwa [← zpow_natCast, ← zpow_add₀ (by norm_num), add_sub_cancel] at hread
    refine ⟨['1'], point x + 1, rfl, ⟨by simp, by simp⟩, ?_, Or.inr ⟨rfl, rfl, hround⟩⟩
    simpa [Nat.ofDigitChars] using hround
  case isFalse hten =>
    have hlength : (Nat.toDigits 10 d).length = k :=
      length_toDigits hk (by exact_mod_cast hlow)
        (lt_of_le_of_ne (by exact_mod_cast hhigh) hten)
    refine ⟨_, _, rfl, allDigits_toDigits d, ?_, Or.inl ⟨hlength, rfl⟩⟩
    rw [hlength, Nat.ofDigitChars_ten_toDigits]
    exact_mod_cast hread

/-- **A positive double is written with digits only if and only if it is whole and less than
`10 ^ 21`.** -/
theorem allDigits_positiveText_iff (hx : 0 < x) (hdouble : Doubles.round x = x) :
    AllDigits (positiveText x) ↔ (∃ m : ℤ, x = m) ∧ x < 10 ^ 21 := by
  have hlt := lt_zpow_point x
  constructor
  · intro h
    cases hshort : shortest x with
    | none =>
      simp only [positiveText, hshort] at h
      exact absurd (h.2 'N' (by simp)) (by decide)
    | some found =>
      obtain ⟨digits, k⟩ := found
      obtain ⟨ds, n, htext, hds, hread, hcase⟩ := exists_layout hx hshort
      rw [htext, allDigits_layout_iff hds] at h
      have hpoint : point x ≤ 21 := by
        rcases hcase with ⟨-, rfl⟩ | ⟨-, rfl, -⟩ <;> omega
      constructor
      · obtain ⟨j, hj⟩ := Int.eq_ofNat_of_zero_le (sub_nonneg.mpr h.1)
        obtain ⟨m, hm⟩ := exists_round_intCast (Nat.ofDigitChars 10 ds 0 * 10 ^ j)
        refine ⟨m, ?_⟩
        rw [← hread, hj, ← hm]
        push_cast
        rw [zpow_natCast]
      · have hle : (10 : ℚ) ^ point x ≤ 10 ^ (21 : ℤ) := zpow_le_zpow_right₀ (by norm_num) hpoint
        exact_mod_cast hlt.trans_le hle
  · rintro ⟨⟨m, rfl⟩, hsmall⟩
    have hone : (1 : ℚ) ≤ m := by exact_mod_cast hx
    have hpos := point_pos hone
    have hpoint : point (m : ℚ) ≤ 21 := by
      have hless : (10 : ℚ) ^ (point (m : ℚ) - 1) < 10 ^ (21 : ℤ) :=
        (zpow_point_le hx).trans_lt (by exact_mod_cast hsmall)
      have := (zpow_lt_zpow_iff_right₀ (by norm_num)).mp hless
      omega
    obtain ⟨n, hn⟩ := Int.eq_ofNat_of_zero_le hpos.le
    obtain ⟨digits, k, hshort, hkn⟩ := exists_shortest (by omega) (by omega)
      (isSome_digitsAt_intCast hdouble hn)
    obtain ⟨ds, n', htext, hds, -, hcase⟩ := exists_layout hx hshort
    rw [htext, allDigits_layout_iff hds]
    rcases hcase with ⟨hlength, rfl⟩ | ⟨-, -, hround⟩
    · exact ⟨by omega, hpoint⟩
    · rw [round_ten_zpow hpos.le (by omega)] at hround
      exact absurd hround hlt.ne'

/-- The text of a positive number has no sign. -/
theorem positiveText_ne_negative (hx : 0 < x) (cs : List Char) : positiveText x ≠ '-' :: cs := by
  intro htext
  have hhead : ∃ c ∈ (positiveText x).head?, c = 'N' ∨ c.isDigit := by
    cases hshort : shortest x with
    | none =>
      simp only [positiveText, hshort]
      exact ⟨'N', rfl, Or.inl rfl⟩
    | some found =>
      obtain ⟨digits, k⟩ := found
      obtain ⟨ds, n, hlayout, hds, -, -⟩ := exists_layout hx hshort
      obtain ⟨d, rest, rfl⟩ := List.exists_cons_of_ne_nil hds.1
      have hd := hds.2 d List.mem_cons_self
      rw [hlayout, layout]
      split
      · exact ⟨d, rfl, Or.inr hd⟩
      split
      case isTrue hn =>
        obtain ⟨j, hj⟩ : ∃ j, n.toNat = j + 1 := ⟨n.toNat - 1, by omega⟩
        rw [hj]
        exact ⟨d, rfl, Or.inr hd⟩
      split
      · exact ⟨'0', rfl, Or.inr (by decide)⟩
      · exact ⟨d, rfl, Or.inr hd⟩
  obtain ⟨c, hc, hor⟩ := hhead
  rw [htext] at hc
  obtain rfl := Option.some.inj hc
  revert hor
  decide

/-- **A double that is written with digits only is read again.** -/
theorem round_ofDigitChars_positiveText (hx : 0 < x) (h : AllDigits (positiveText x)) :
    Doubles.round (Nat.ofDigitChars 10 (positiveText x) 0) = x := by
  cases hshort : shortest x with
  | none =>
    simp only [positiveText, hshort] at h
    exact absurd (h.2 'N' (by simp)) (by decide)
  | some found =>
    obtain ⟨digits, k⟩ := found
    obtain ⟨ds, n, htext, hds, hread, -⟩ := exists_layout hx hshort
    rw [htext, allDigits_layout_iff hds] at h
    obtain ⟨j, hj⟩ := Int.eq_ofNat_of_zero_le (sub_nonneg.mpr h.1)
    rw [htext, layout, if_pos h, hj, Int.toNat_natCast, Nat.ofDigitChars_append,
      Nat.ofDigitChars_replicate_zero]
    rw [hj, zpow_natCast] at hread
    push_cast
    rwa [mul_comm]

theorem mem_scientific {ds : List Char} {e : ℤ} {c : Char} (hds : AllDigits ds)
    (h : c ∈ scientific ds e) : c.isDigit ∨ c ∈ ['.', 'e', '+', '-', 'N', 'a'] := by
  rw [scientific, List.mem_append, List.mem_append] at h
  rcases h with (h | h) | h
  · exact Or.inl (hds.2 c (List.mem_of_mem_take h))
  · split at h
    · exact absurd h List.not_mem_nil
    · rcases List.mem_cons.mp h with rfl | h
      · exact Or.inr (by decide)
      · exact Or.inl (hds.2 c (List.mem_of_mem_drop h))
  · rcases List.mem_cons.mp h with rfl | h
    · exact Or.inr (by decide)
    · rcases List.mem_cons.mp h with rfl | h
      · right
        split <;> decide
      · exact Or.inl (Nat.isDigit_of_mem_toDigits (by decide) (by decide) h)

/-- The characters of a positive number. -/
theorem mem_positiveText {c : Char} (hx : 0 < x) (h : c ∈ positiveText x) :
    c.isDigit ∨ c ∈ ['.', 'e', '+', '-', 'N', 'a'] := by
  cases hshort : shortest x with
  | none =>
    simp only [positiveText, hshort] at h
    right
    revert h
    simp only [show "NaN".toList = ['N', 'a', 'N'] from rfl, List.mem_cons]
    tauto
  | some found =>
    obtain ⟨digits, k⟩ := found
    obtain ⟨ds, n, htext, hds, -, -⟩ := exists_layout hx hshort
    have hzero (m : ℕ) (hc : c ∈ List.replicate m '0') : c.isDigit := by
      rw [List.eq_of_mem_replicate hc]
      decide
    rw [htext, layout] at h
    split at h
    · rcases List.mem_append.mp h with h | h
      · exact Or.inl (hds.2 c h)
      · exact Or.inl (hzero _ h)
    split at h
    · rcases List.mem_append.mp h with h | h
      · exact Or.inl (hds.2 c (List.mem_of_mem_take h))
      · rcases List.mem_cons.mp h with rfl | h
        · exact Or.inr (by decide)
        · exact Or.inl (hds.2 c (List.mem_of_mem_drop h))
    split at h
    · rcases List.mem_cons.mp h with rfl | h
      · exact Or.inl (by decide)
      · rcases List.mem_cons.mp h with rfl | h
        · exact Or.inr (by decide)
        · rcases List.mem_append.mp h with h | h
          · exact Or.inl (hzero _ h)
          · exact Or.inl (hds.2 c h)
    · exact mem_scientific hds h

/-! ### Different numbers are written differently -/

theorem two_pow_lt_ten_pow : (2 : ℚ) ^ 1024 < 10 ^ (342 : ℤ) := by
  have hle : (2 : ℚ) ^ 1024 ≤ 2 ^ (3 * 342) := pow_le_pow_right₀ (by norm_num) (by norm_num)
  have hlt : ((2 : ℚ) ^ 3) ^ 342 < 10 ^ 342 :=
    pow_lt_pow_left₀ (by norm_num) (by norm_num) (by norm_num)
  rw [pow_mul] at hle
  exact hle.trans_lt (by exact_mod_cast hlt)

/-- The digits and the point of a whole number. -/
theorem exists_layout_intCast {m : ℤ} (hm : 0 < m) (hdouble : Doubles.round m = m)
    (hlt : (m : ℚ) < 2 ^ 1024) :
    ∃ ds n, positiveText (m : ℚ) = layout ds n ∧ AllDigits ds ∧ (ds.length : ℤ) ≤ n ∧
      Doubles.round (Nat.ofDigitChars 10 ds 0 * 10 ^ (n - ds.length)) = m := by
  have hx : (0 : ℚ) < m := by exact_mod_cast hm
  have hpos : 0 < point (m : ℚ) := point_pos (by exact_mod_cast hm)
  have hpoint : point (m : ℚ) ≤ 1400 := by
    have hless := ((zpow_point_le hx).trans_lt hlt).trans two_pow_lt_ten_pow
    have := (zpow_lt_zpow_iff_right₀ (by norm_num)).mp hless
    omega
  obtain ⟨n, hn⟩ := Int.eq_ofNat_of_zero_le hpos.le
  obtain ⟨digits, k, hshort, hkn⟩ := exists_shortest (by omega) (by omega)
    (isSome_digitsAt_intCast hdouble hn)
  obtain ⟨ds, n', htext, hds, hread, hcase⟩ := exists_layout hx hshort
  refine ⟨ds, n', htext, hds, ?_, hread⟩
  rcases hcase with ⟨hlength, rfl⟩ | ⟨hone, rfl, -⟩
  · omega
  · rw [hone]
    push_cast
    omega

/-- A number with an exponent is known by its digits and its exponent. -/
theorem scientific_inj {ds ds' : List Char} {e e' : ℤ} (hds : AllDigits ds) (hds' : AllDigits ds')
    (he : 0 ≤ e) (he' : 0 ≤ e') (h : scientific ds e = scientific ds' e') : ds = ds' ∧ e = e' := by
  let mantissa (ds : List Char) : List Char :=
    ds.take 1 ++ (if ds.length = 1 then [] else '.' :: ds.drop 1)
  have hmark {ds : List Char} (hds : AllDigits ds) : 'e' ∉ mantissa ds := by
    intro hmem
    rcases List.mem_append.mp hmem with hmem | hmem
    · exact absurd (hds.2 'e' (List.mem_of_mem_take hmem)) (by decide)
    · split at hmem
      · exact List.not_mem_nil hmem
      · rcases List.mem_cons.mp hmem with hdot | hmem
        · exact absurd hdot (by decide)
        · exact absurd (hds.2 'e' (List.mem_of_mem_drop hmem)) (by decide)
  have hfilter {ds : List Char} (hds : AllDigits ds) : (mantissa ds).filter Char.isDigit = ds := by
    have htake : (ds.take 1).filter Char.isDigit = ds.take 1 :=
      List.filter_eq_self.mpr fun c hc => hds.2 c (List.mem_of_mem_take hc)
    have hdrop : (ds.drop 1).filter Char.isDigit = ds.drop 1 :=
      List.filter_eq_self.mpr fun c hc => hds.2 c (List.mem_of_mem_drop hc)
    show (ds.take 1 ++ (if ds.length = 1 then [] else '.' :: ds.drop 1)).filter Char.isDigit = ds
    rw [List.filter_append, htake]
    split
    case isTrue hone => rw [List.filter_nil, List.append_nil, List.take_of_length_le hone.le]
    case isFalse => rw [List.filter_cons_of_neg (by decide), hdrop, List.take_append_drop]
  obtain ⟨hmantissa, hexponent⟩ := Separators.append_cons_inj (hmark hds) (hmark hds') h
  rw [if_neg (not_lt.mpr he), if_neg (not_lt.mpr he')] at hexponent
  have hvalue := congrArg (fun cs => Nat.ofDigitChars 10 cs 0) (List.cons.inj hexponent).2
  simp only [Nat.ofDigitChars_ten_toDigits] at hvalue
  refine ⟨?_, by omega⟩
  rw [← hfilter hds, ← hfilter hds', hmantissa]

/-- **Different whole numbers are written differently.** -/
theorem positiveText_inj {m m' : ℤ} (hm : 0 < m) (hm' : 0 < m') (hdouble : Doubles.round m = m)
    (hdouble' : Doubles.round m' = m') (hlt : (m : ℚ) < 2 ^ 1024) (hlt' : (m' : ℚ) < 2 ^ 1024)
    (h : positiveText m = positiveText m') : m = m' := by
  by_cases hall : AllDigits (positiveText (m : ℚ))
  · have hread := round_ofDigitChars_positiveText (by exact_mod_cast hm) hall
    have hread' := round_ofDigitChars_positiveText (by exact_mod_cast hm') (h ▸ hall)
    rw [h, hread'] at hread
    exact_mod_cast hread.symm
  · obtain ⟨ds, n, htext, hds, hlength, hread⟩ := exists_layout_intCast hm hdouble hlt
    obtain ⟨ds', n', htext', hds', hlength', hread'⟩ := exists_layout_intCast hm' hdouble' hlt'
    have hlong : ¬ (ds.length ≤ n ∧ n ≤ 21) := by rwa [htext, allDigits_layout_iff hds] at hall
    have hlong' : ¬ (ds'.length ≤ n' ∧ n' ≤ 21) := by
      rwa [h, htext', allDigits_layout_iff hds'] at hall
    rw [htext, htext', layout, if_neg hlong, if_neg (by omega), if_neg (by omega), layout,
      if_neg hlong', if_neg (by omega), if_neg (by omega)] at h
    obtain ⟨rfl, hn⟩ := scientific_inj hds hds' (by omega) (by omega) h
    obtain rfl : n = n' := by omega
    exact_mod_cast hread.symm.trans hread'

/-! ### Numbers that are not rounded -/

/-- A whole number of up to fifty-three bits is not rounded. -/
theorem Number.ofRat_natCast {n : ℕ} (h : n < 2 ^ 53) : Number.ofRat (n : ℤ) = .finite n := by
  have hround : Doubles.round ((n : ℤ) : ℚ) = n := by
    have habs : |(n : ℤ)| < 2 ^ 53 := by
      rw [Nat.abs_cast]
      exact_mod_cast h
    rw [Doubles.round_intCast habs, Int.cast_natCast]
  have hlt : |(n : ℚ)| < 2 ^ 1024 := by
    rw [Nat.abs_cast]
    exact_mod_cast h.trans (Nat.pow_lt_pow_right (by decide) (by decide))
  rw [Number.ofRat, hround, if_pos hlt]

/-- A text of digits, as a number. -/
theorem toNumber_of_allDigits {cs : List Char} (h : AllDigits cs)
    (hlt : Nat.ofDigitChars 10 cs 0 < 2 ^ 53) :
    toNumber (String.ofList cs) = .finite (Nat.ofDigitChars 10 cs 0) := by
  have hlist : (String.ofList cs).toList = cs := String.toList_ofList
  have hread := bigInt_of_allDigits (show AllDigits (String.ofList cs).toList by rwa [hlist])
  rw [hlist] at hread
  rw [toNumber, hread]
  exact Number.ofRat_natCast hlt

end Swyft.Js
