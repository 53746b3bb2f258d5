import Mathlib.Algebra.Order.Ring.Int
import Mathlib.Tactic.Common

/-!
# The proleptic Gregorian calendar

Days are counted from 1970-01-01. A year is found by an estimate that is never off by more than one,
a month by the number of days before it.

## Main definitions

* `Calendar.days` — the number of a date
* `Calendar.civil` — the date of a number

## Main results

* `Calendar.days_civil` — a day is found again by its date
* `Calendar.valid_civil` — the date of a day is one
-/

namespace Calendar

/-- A year, a month from 1 to 12 and a day of the month. -/
structure Civil where
  year : ℤ
  month : ℕ
  day : ℕ
  deriving DecidableEq

def IsLeap (year : ℤ) : Prop := year % 4 = 0 ∧ (year % 100 ≠ 0 ∨ year % 400 = 0)

instance (year : ℤ) : Decidable (IsLeap year) := inferInstanceAs (Decidable (_ ∧ _))

/-- The days before the first of January. -/
def daysBeforeYear (year : ℤ) : ℤ :=
  365 * (year - 1970) + (year - 1969) / 4 - (year - 1901) / 100 + (year - 1601) / 400

/-- The days of the year before the first of a month. -/
def daysBeforeMonth (leap : Bool) (month : ℕ) : ℕ :=
  match month with
  | 0 | 1 => 0
  | 2 => 31
  | 3 => 59 + leap.toNat
  | 4 => 90 + leap.toNat
  | 5 => 120 + leap.toNat
  | 6 => 151 + leap.toNat
  | 7 => 181 + leap.toNat
  | 8 => 212 + leap.toNat
  | 9 => 243 + leap.toNat
  | 10 => 273 + leap.toNat
  | 11 => 304 + leap.toNat
  | 12 => 334 + leap.toNat
  | _ => 365 + leap.toNat

/-- A date that exists. -/
structure Valid (c : Civil) : Prop where
  month_pos : 1 ≤ c.month
  month_le : c.month ≤ 12
  day_pos : 1 ≤ c.day
  day_le : c.day ≤ daysBeforeMonth (decide (IsLeap c.year)) (c.month + 1)
    - daysBeforeMonth (decide (IsLeap c.year)) c.month

instance (c : Civil) : Decidable (Valid c) :=
  decidable_of_iff (1 ≤ c.month ∧ c.month ≤ 12 ∧ 1 ≤ c.day ∧
      c.day ≤ daysBeforeMonth (decide (IsLeap c.year)) (c.month + 1)
        - daysBeforeMonth (decide (IsLeap c.year)) c.month)
    ⟨fun h => ⟨h.1, h.2.1, h.2.2.1, h.2.2.2⟩,
      fun h => ⟨h.month_pos, h.month_le, h.day_pos, h.day_le⟩⟩

/-- The number of a date. -/
def days (c : Civil) : ℤ :=
  daysBeforeYear c.year + daysBeforeMonth (decide (IsLeap c.year)) c.month + c.day - 1

/-- The year of a day, off by one at most. -/
def yearEstimate (n : ℤ) : ℤ := 400 * n / 146097 + 1970

/-- The year of a day. -/
def yearOf (n : ℤ) : ℤ :=
  if n < daysBeforeYear (yearEstimate n) then yearEstimate n - 1
  else if daysBeforeYear (yearEstimate n + 1) ≤ n then yearEstimate n + 1 else yearEstimate n

/-- The month of a day of the year, if it is one of the first `m` of them. -/
def monthUpTo (leap : Bool) (d : ℕ) : ℕ → ℕ
  | 0 => 1
  | m + 1 => if daysBeforeMonth leap (m + 1) ≤ d then m + 1 else monthUpTo leap d m

/-- The month of a day of the year. -/
def monthOf (leap : Bool) (d : ℕ) : ℕ := monthUpTo leap d 12

/-- The date of a number. -/
def civil (n : ℤ) : Civil :=
  let year := yearOf n
  let leap := decide (IsLeap year)
  let d := (n - daysBeforeYear year).toNat
  let month := monthOf leap d
  ⟨year, month, d - daysBeforeMonth leap month + 1⟩

theorem daysBeforeYear_succ (year : ℤ) :
    daysBeforeYear (year + 1) = daysBeforeYear year + 365 + (decide (IsLeap year)).toNat := by
  by_cases h : IsLeap year
  · rw [decide_eq_true h]
    unfold IsLeap at h
    simp only [daysBeforeYear, Bool.toNat_true]
    omega
  · rw [decide_eq_false h]
    unfold IsLeap at h
    simp only [daysBeforeYear, Bool.toNat_false]
    omega

/-- A day lies in its year. -/
theorem yearOf_spec (n : ℤ) :
    daysBeforeYear (yearOf n) ≤ n ∧ n < daysBeforeYear (yearOf n + 1) := by
  have hbefore : daysBeforeYear (yearEstimate n - 1) ≤ n := by
    unfold daysBeforeYear yearEstimate
    omega
  have hafter : n < daysBeforeYear (yearEstimate n + 1 + 1) := by
    unfold daysBeforeYear yearEstimate
    omega
  unfold yearOf
  split_ifs with hlt hle
  · exact ⟨hbefore, by rwa [sub_add_cancel]⟩
  · exact ⟨hle, hafter⟩
  · exact ⟨not_lt.mp hlt, not_le.mp hle⟩

theorem monthUpTo_spec (leap : Bool) {d m : ℕ} (hpos : 1 ≤ m)
    (h : d < daysBeforeMonth leap (m + 1)) :
    1 ≤ monthUpTo leap d m ∧ monthUpTo leap d m ≤ m ∧
      daysBeforeMonth leap (monthUpTo leap d m) ≤ d ∧
      d < daysBeforeMonth leap (monthUpTo leap d m + 1) := by
  induction m with
  | zero => omega
  | succ m ih =>
    rw [monthUpTo]
    split_ifs with hle
    · exact ⟨hpos, le_rfl, hle, h⟩
    · rcases Nat.eq_zero_or_pos m with rfl | hm
      · exact absurd (Nat.zero_le d) hle
      · obtain ⟨hone, hmonth, hspec⟩ := ih hm (not_le.mp hle)
        exact ⟨hone, Nat.le_succ_of_le hmonth, hspec⟩

/-- A day of the year lies in its month. -/
theorem monthOf_spec (leap : Bool) {d : ℕ} (h : d < 365 + leap.toNat) :
    1 ≤ monthOf leap d ∧ monthOf leap d ≤ 12 ∧ daysBeforeMonth leap (monthOf leap d) ≤ d ∧
      d < daysBeforeMonth leap (monthOf leap d + 1) :=
  monthUpTo_spec leap (Nat.le_add_left 1 11) h

section Civil

variable (n : ℤ)

/-- The day of the year of a number. -/
def dayOfYear : ℕ := (n - daysBeforeYear (yearOf n)).toNat

theorem dayOfYear_lt : dayOfYear n < 365 + (decide (IsLeap (yearOf n))).toNat := by
  have hyear := yearOf_spec n
  rw [daysBeforeYear_succ] at hyear
  unfold dayOfYear
  omega

theorem civil_eq : civil n = ⟨yearOf n, monthOf (decide (IsLeap (yearOf n))) (dayOfYear n),
    dayOfYear n - daysBeforeMonth (decide (IsLeap (yearOf n)))
      (monthOf (decide (IsLeap (yearOf n))) (dayOfYear n)) + 1⟩ := rfl

/-- **A day is found again by its date.** -/
theorem days_civil : days (civil n) = n := by
  obtain ⟨-, -, hle, -⟩ := monthOf_spec _ (dayOfYear_lt n)
  have hday : (dayOfYear n : ℤ) = n - daysBeforeYear (yearOf n) :=
    Int.toNat_of_nonneg (sub_nonneg.mpr (yearOf_spec n).1)
  rw [civil_eq, days]
  dsimp only
  omega

/-- **The date of a day is one.** -/
theorem valid_civil : Valid (civil n) := by
  obtain ⟨hpos, hmonth, hle, hlt⟩ := monthOf_spec _ (dayOfYear_lt n)
  rw [civil_eq]
  exact ⟨hpos, hmonth, Nat.succ_pos _, by dsimp only; omega⟩

/-- The days of a month are thirty-one at most. -/
theorem Valid.day_le_31 {c : Civil} (h : Valid c) : c.day ≤ 31 := by
  have hall : ∀ leap : Bool, ∀ m : Fin 13, 1 ≤ m.val →
      daysBeforeMonth leap (m + 1) - daysBeforeMonth leap m ≤ 31 := by decide
  have hmonth := hall (decide (IsLeap c.year)) ⟨c.month, Nat.lt_succ_of_le h.month_le⟩ h.month_pos
  exact h.day_le.trans hmonth

end Civil

end Calendar
