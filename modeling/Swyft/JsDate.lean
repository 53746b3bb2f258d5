import Swyft.Js
import Swyft.Lib.Calendar
import Mathlib.Algebra.Order.Group.Unbundled.Abs
import Mathlib.Tactic.Ring
import Mathlib.Tactic.NormNum

/-!
# Dates as texts

A `Date` of the language is a number of milliseconds, and `toISOString` writes it as a text that
`new Date` reads. Years from 0 to 9999 have four digits, any other year a sign and six.

## Main definitions

* `Js.isoChars` — the text of a date, as characters
* `Js.readISOChars` — what `new Date` makes of such a text; nothing for any other

## Main results

* `Js.readISOChars_isoChars` — a date is read from its text
-/

namespace Swyft.Js

/-- The greatest number of milliseconds of a date. -/
def maxTime : ℤ := 8640000000000000

/-- A number of milliseconds that a `Date` can hold. -/
def IsDate (t : ℤ) : Prop := |t| ≤ maxTime

instance (t : ℤ) : Decidable (IsDate t) := inferInstanceAs (Decidable (_ ≤ _))

/-! ### Numerals of a fixed width -/

def digitChar (d : ℕ) : Char := Char.ofNat (48 + d)

/-- The last `width` digits of a number. -/
def padded : ℕ → ℕ → List Char
  | 0, _ => []
  | width + 1, n => padded width (n / 10) ++ [digitChar (n % 10)]

/-- A numeral of `width` digits, and what follows it. -/
def readPadded (width : ℕ) (cs : List Char) : Option (ℕ × List Char) :=
  if width ≤ cs.length then (digits 10 (cs.take width)).map fun n => (n, cs.drop width) else none

theorem length_padded (width n : ℕ) : (padded width n).length = width := by
  induction width generalizing n with
  | zero => rfl
  | succ width ih => rw [padded, List.length_append, ih, List.length_singleton]

theorem digit_digitChar {d : ℕ} (h : d < 10) : digit 10 (digitChar d) = some d := by
  have hall : ∀ d : Fin 10, digit 10 (digitChar d) = some d.val := by decide
  exact hall ⟨d, h⟩

theorem toNat_digitChar {d : ℕ} (h : d < 10) : (digitChar d).toNat = 48 + d := by
  have hall : ∀ d : Fin 10, (digitChar d).toNat = 48 + d.val := by decide
  exact hall ⟨d, h⟩

/-- Digits are below 128. -/
theorem toNat_lt_of_mem_padded {width n : ℕ} {c : Char} (h : c ∈ padded width n) :
    c.toNat < 128 := by
  induction width generalizing n with
  | zero => exact absurd h List.not_mem_nil
  | succ width ih =>
    rcases List.mem_append.mp h with h | h
    · exact ih h
    · obtain rfl := List.mem_singleton.mp h
      have hdigit : n % 10 < 10 := Nat.mod_lt n (by norm_num)
      rw [toNat_digitChar hdigit]
      omega

theorem foldlM_padded (width : ℕ) {n : ℕ} (h : n < 10 ^ width) :
    (padded width n).foldlM (fun n c => (digit 10 c).map fun d => n * 10 + d) 0 = some n := by
  induction width generalizing n with
  | zero =>
    obtain rfl : n = 0 := by simpa using h
    rfl
  | succ width ih =>
    have hquot : n / 10 < 10 ^ width := Nat.div_lt_of_lt_mul (by rw [pow_succ] at h; omega)
    rw [padded, List.foldlM_append, ih hquot]
    show ((digit 10 (digitChar (n % 10))).map fun d => n / 10 * 10 + d) >>= pure = _
    rw [digit_digitChar (Nat.mod_lt n (by norm_num))]
    show some (n / 10 * 10 + n % 10) = some n
    rw [Nat.div_add_mod']

theorem readPadded_padded {width n : ℕ} (hpos : 0 < width) (h : n < 10 ^ width) (cs : List Char) :
    readPadded width (padded width n ++ cs) = some (n, cs) := by
  have hlength := length_padded width n
  have hne : padded width n ≠ [] := by
    intro hnil
    rw [hnil] at hlength
    exact hpos.ne hlength
  have htake : (padded width n ++ cs).take width = padded width n := List.take_left' hlength
  have hdrop : (padded width n ++ cs).drop width = cs := List.drop_left' hlength
  rw [readPadded, if_pos (by rw [List.length_append]; omega), htake, hdrop, digits, if_neg hne,
    foldlM_padded width h]
  rfl

/-! ### Dates -/

/-- The year of a date: four digits, or a sign and six. -/
def yearChars (year : ℤ) : List Char :=
  if 0 ≤ year ∧ year ≤ 9999 then padded 4 year.toNat
  else (if 0 ≤ year then '+' else '-') :: padded 6 year.natAbs

/-- The milliseconds of a day. -/
def msPerDay : ℤ := 86400000

/-- `Date.prototype.toISOString` of a date. -/
def isoChars (t : ℤ) : List Char :=
  let date := Calendar.civil (t / msPerDay)
  let ms := (t % msPerDay).toNat
  yearChars date.year ++ '-' :: (padded 2 date.month ++ '-' :: (padded 2 date.day ++
    'T' :: (padded 2 (ms / 3600000) ++ ':' :: (padded 2 (ms / 60000 % 60) ++
    ':' :: (padded 2 (ms / 1000 % 60) ++ '.' :: (padded 3 (ms % 1000) ++ ['Z']))))))

/-- Texts of dates have no character above 127. -/
theorem toNat_lt_of_mem_isoChars {t : ℤ} {c : Char} (h : c ∈ isoChars t) : c.toNat < 128 := by
  have hyear : ∀ {year : ℤ}, c ∈ yearChars year → c.toNat < 128 := by
    intro year hc
    rw [yearChars] at hc
    split_ifs at hc
    · exact toNat_lt_of_mem_padded hc
    · rcases List.mem_cons.mp hc with rfl | hc
      · decide
      · exact toNat_lt_of_mem_padded hc
    · rcases List.mem_cons.mp hc with rfl | hc
      · decide
      · exact toNat_lt_of_mem_padded hc
  simp only [isoChars, List.mem_append, List.mem_cons, List.not_mem_nil, or_false] at h
  rcases h with h | rfl | h | rfl | h | rfl | h | rfl | h | rfl | h | rfl | h | rfl
  · exact hyear h
  all_goals first | decide | exact toNat_lt_of_mem_padded h

def readYear : List Char → Option (ℤ × List Char)
  | '+' :: cs => (readPadded 6 cs).map fun p => ((p.1 : ℤ), p.2)
  | '-' :: cs => (readPadded 6 cs).bind fun p => if p.1 = 0 then none else some (-(p.1 : ℤ), p.2)
  | cs => (readPadded 4 cs).map fun p => ((p.1 : ℤ), p.2)

/-- A numeral after a separator. -/
def readField (separator : Char) (width : ℕ) : List Char → Option (ℕ × List Char)
  | [] => none
  | c :: cs => if c = separator then readPadded width cs else none

/-- What `new Date` makes of a text of the form that `toISOString` writes. -/
def readISOChars (cs : List Char) : Option ℤ := do
  let (year, cs) ← readYear cs
  let (month, cs) ← readField '-' 2 cs
  let (day, cs) ← readField '-' 2 cs
  let (hour, cs) ← readField 'T' 2 cs
  let (minute, cs) ← readField ':' 2 cs
  let (second, cs) ← readField ':' 2 cs
  let (ms, cs) ← readField '.' 3 cs
  let date : Calendar.Civil := ⟨year, month, day⟩
  let t := Calendar.days date * msPerDay + ((hour * 60 + minute) * 60 + second : ℕ) * 1000 + ms
  if cs = ['Z'] ∧ Calendar.Valid date ∧ hour < 24 ∧ minute < 60 ∧ second < 60 ∧ IsDate t then some t
  else none

theorem readField_cons {separator : Char} {width n : ℕ} (hpos : 0 < width) (h : n < 10 ^ width)
    (cs : List Char) :
    readField separator width (separator :: (padded width n ++ cs)) = some (n, cs) := by
  rw [readField, if_pos rfl, readPadded_padded hpos h]

theorem readYear_digitChar {d : ℕ} (h : d < 10) (cs : List Char) :
    readYear (digitChar d :: cs)
      = (readPadded 4 (digitChar d :: cs)).map fun p => ((p.1 : ℤ), p.2) := by
  have hplus : digitChar d ≠ '+' := by
    have hall : ∀ d : Fin 10, digitChar d ≠ '+' := by decide
    exact hall ⟨d, h⟩
  have hminus : digitChar d ≠ '-' := by
    have hall : ∀ d : Fin 10, digitChar d ≠ '-' := by decide
    exact hall ⟨d, h⟩
  rw [readYear]
  · exact fun cs' heq => hplus (List.cons.inj heq).1
  · exact fun cs' heq => hminus (List.cons.inj heq).1

/-- A year is read from its digits. -/
theorem readYear_yearChars {year : ℤ} (h : |year| < 10 ^ 6) (cs : List Char) :
    readYear (yearChars year ++ cs) = some (year, cs) := by
  rw [abs_lt] at h
  rw [yearChars]
  split_ifs with hfour hsign
  · obtain ⟨n, rfl⟩ := Int.eq_ofNat_of_zero_le hfour.1
    have hn : n < 10 ^ 4 := by omega
    have hread := readPadded_padded (by norm_num) hn cs
    show readYear (digitChar (n / 10 / 10 / 10 % 10) :: _) = _
    rw [readYear_digitChar (Nat.mod_lt _ (by norm_num))]
    show (readPadded 4 (padded 4 n ++ cs)).map _ = _
    rw [hread]
    rfl
  · obtain ⟨n, rfl⟩ := Int.eq_ofNat_of_zero_le hsign
    have hn : n < 10 ^ 6 := by omega
    show (readPadded 6 (padded 6 n ++ cs)).map _ = _
    rw [readPadded_padded (by norm_num) hn]
    rfl
  · obtain ⟨n, rfl⟩ : ∃ n : ℕ, year = -n := ⟨year.natAbs, by omega⟩
    have hn : n < 10 ^ 6 := by omega
    have hne : n ≠ 0 := by omega
    rw [Int.natAbs_neg, Int.natAbs_natCast]
    show (readPadded 6 (padded 6 n ++ cs)).bind _ = _
    rw [readPadded_padded (by norm_num) hn]
    show (if n = 0 then none else _) = _
    rw [if_neg hne]

/-- The years of dates have six digits. -/
theorem abs_year_lt {t : ℤ} (h : IsDate t) : |(Calendar.civil (t / msPerDay)).year| < 10 ^ 6 := by
  have hyear := Calendar.yearOf_spec (t / msPerDay)
  have hdate := abs_le.mp h
  show |Calendar.yearOf (t / msPerDay)| < 10 ^ 6
  rw [abs_lt]
  unfold Calendar.daysBeforeYear msPerDay at hyear
  unfold maxTime at hdate
  unfold msPerDay
  omega

/-- A time of day is the sum of its parts. -/
theorem parts_eq (ms : ℕ) : ((ms / 3600000 * 60 + ms / 60000 % 60) * 60 + ms / 1000 % 60) * 1000
    + ms % 1000 = ms := by
  omega

/-- **A date is read from its text.** -/
theorem readISOChars_isoChars {t : ℤ} (h : IsDate t) : readISOChars (isoChars t) = some t := by
  have hvalid := Calendar.valid_civil (t / msPerDay)
  have hyear := abs_year_lt h
  have hdays := Calendar.days_civil (t / msPerDay)
  have hms : (t % msPerDay).toNat < 86400000 := by
    unfold msPerDay
    omega
  have ht : t / msPerDay * msPerDay + (t % msPerDay).toNat = t := by
    unfold msPerDay
    omega
  rw [isoChars]
  generalize Calendar.civil (t / msPerDay) = date at hvalid hyear hdays
  generalize (t % msPerDay).toNat = ms at hms ht
  have hmonth : date.month < 10 ^ 2 := by have := hvalid.month_le; omega
  have hday : date.day < 10 ^ 2 := by have := hvalid.day_le_31; omega
  rw [readISOChars, readYear_yearChars hyear]
  dsimp only [Option.bind_eq_bind, Option.bind_some]
  rw [readField_cons (by norm_num) hmonth]
  dsimp only [Option.bind_some]
  rw [readField_cons (by norm_num) hday]
  dsimp only [Option.bind_some]
  rw [readField_cons (by norm_num) (by omega : ms / 3600000 < 10 ^ 2)]
  dsimp only [Option.bind_some]
  rw [readField_cons (by norm_num) (by omega : ms / 60000 % 60 < 10 ^ 2)]
  dsimp only [Option.bind_some]
  rw [readField_cons (by norm_num) (by omega : ms / 1000 % 60 < 10 ^ 2)]
  dsimp only [Option.bind_some]
  rw [readField_cons (by norm_num) (by omega : ms % 1000 < 10 ^ 3)]
  dsimp only [Option.bind_some]
  have htime : Calendar.days date * msPerDay
      + ((ms / 3600000 * 60 + ms / 60000 % 60) * 60 + ms / 1000 % 60 : ℕ) * 1000
      + (ms % 1000 : ℕ) = t := by
    have hparts := congrArg (Nat.cast : ℕ → ℤ) (parts_eq ms)
    rw [Nat.cast_add, Nat.cast_mul] at hparts
    rw [hdays, add_assoc]
    exact (congrArg (t / msPerDay * msPerDay + ·) hparts).trans ht
  rw [htime, if_pos ⟨rfl, hvalid, by omega, by omega, by omega, h⟩]

end Swyft.Js
