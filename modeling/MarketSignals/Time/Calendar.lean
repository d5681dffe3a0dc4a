import MarketSignals.Text.Digits

/-!
# The calendar

Days counted from 1970-01-01 and their dates in the Gregorian calendar, extended to all years.
Years are taken from March to February, so that the leap day comes last: 400 such years are
always 146097 days, and the first day of a month follows from its number alone.

## Main results

* `Date.toDays_ofDays` — every day has a date that counts back to it.
-/

namespace MarketSignals

/-- A date of the Gregorian calendar. -/
structure Date where
  /-- The year; the year before year 1 is year 0. -/
  year : Int
  /-- The month, from 1. -/
  month : Nat
  /-- The day of the month, from 1. -/
  day : Nat
deriving DecidableEq

/-- Whether a year has a leap day. -/
def isLeapYear (year : Int) : Bool :=
  year % 4 = 0 && (year % 100 ≠ 0 || year % 400 = 0)

/-- The days of a month; none outside the months of a year. -/
def daysInMonth (year : Int) : Nat → Nat
  | 2 => if isLeapYear year then 29 else 28
  | 4 | 6 | 9 | 11 => 30
  | 1 | 3 | 5 | 7 | 8 | 10 | 12 => 31
  | _ => 0

namespace Date

/-- Whether there is such a date. -/
def isValid (d : Date) : Bool :=
  1 ≤ d.day && d.day ≤ daysInMonth d.year d.month

/-- The days from the first of March to the first of the month that comes `n` months later. -/
def monthStart (n : Int) : Int :=
  (153 * n + 2) / 5

/-- The days from the first of March of year 0 to the first of March of a year. -/
def yearStart (year : Int) : Int :=
  365 * year + year / 4 - year / 100 + year / 400

/-- The days from year 0's first of March to 1970-01-01. -/
def epochDay : Int := 719468

/-- The days from 1970-01-01 to a date. -/
def toDays (d : Date) : Int :=
  let year := if d.month ≤ 2 then d.year - 1 else d.year
  let month : Int := if d.month ≤ 2 then d.month + 9 else d.month - 3
  yearStart year + monthStart month + (d.day - 1) - epochDay

/-- The year, counted from March, that a day counted from year 0's first of March falls into. The
mean length of a year gives a first guess, which is at most one year off. -/
def marchYear (day : Int) : Int :=
  let guess := 400 * day / 146097
  if day < yearStart guess then guess - 1
  else if yearStart (guess + 1) ≤ day then guess + 1
  else guess

/-- The month, counted from March, that a day of a year counted from March falls into. -/
def marchMonth (dayOfYear : Int) : Int :=
  (5 * dayOfYear + 2) / 153

/-- The date of a day counted from 1970-01-01. -/
def ofDays (days : Int) : Date :=
  let day := days + epochDay
  let year := marchYear day
  let dayOfYear := day - yearStart year
  let month := marchMonth dayOfYear
  let dayOfMonth := dayOfYear - monthStart month
  ⟨if month < 10 then year else year + 1,
    (if month < 10 then month + 3 else month - 9).toNat, (dayOfMonth + 1).toNat⟩

/-- A day lies in the year, counted from March, that is computed for it. -/
theorem yearStart_marchYear (day : Int) :
    yearStart (marchYear day) ≤ day ∧ day < yearStart (marchYear day + 1) := by
  have before : yearStart (400 * day / 146097 - 1) ≤ day := by
    simp only [yearStart]; omega
  have after : day < yearStart (400 * day / 146097 + 1 + 1) := by
    simp only [yearStart]; omega
  simp only [marchYear]
  split
  · rename_i below
    rw [show 400 * day / 146097 - 1 + 1 = 400 * day / 146097 by omega]
    exact ⟨before, below⟩
  · split
    · rename_i above
      exact ⟨above, after⟩
    · omega

/-- A year counted from March has 365 days, or 366 where its February has a leap day. -/
theorem yearStart_succ (year : Int) :
    yearStart (year + 1) = yearStart year + 365 + (if isLeapYear (year + 1) then 1 else 0) := by
  simp only [yearStart, isLeapYear, Bool.and_eq_true, Bool.or_eq_true, decide_eq_true_eq]
  split <;> omega

/-- A day of a year lies in the month that is computed for it. -/
theorem monthStart_marchMonth {dayOfYear : Int} (low : 0 ≤ dayOfYear) (high : dayOfYear < 366) :
    0 ≤ marchMonth dayOfYear ∧ marchMonth dayOfYear < 12 ∧
      monthStart (marchMonth dayOfYear) ≤ dayOfYear ∧
      dayOfYear < monthStart (marchMonth dayOfYear + 1) := by
  simp only [monthStart, marchMonth]
  omega

/-- Every day has a date that counts back to it. -/
theorem toDays_ofDays (days : Int) : (ofDays days).toDays = days := by
  have inYear := yearStart_marchYear (days + epochDay)
  have length := yearStart_succ (marchYear (days + epochDay))
  have leap : (if isLeapYear (marchYear (days + epochDay) + 1) then (1 : Int) else 0) ≤ 1 := by
    split <;> decide
  have inMonth := @monthStart_marchMonth
    (days + epochDay - yearStart (marchYear (days + epochDay))) (by omega) (by omega)
  simp only [ofDays, toDays]
  by_cases late : marchMonth (days + epochDay - yearStart (marchYear (days + epochDay))) < 10
  · have month : ¬ (marchMonth (days + epochDay - yearStart (marchYear (days + epochDay))) +
        3).toNat ≤ 2 := by omega
    simp only [late, if_true, month, if_false]
    rw [show (((marchMonth (days + epochDay - yearStart (marchYear (days + epochDay))) +
      3).toNat : Int) - 3) = marchMonth (days + epochDay -
        yearStart (marchYear (days + epochDay))) by omega]
    omega
  · have month : (marchMonth (days + epochDay - yearStart (marchYear (days + epochDay))) -
        9).toNat ≤ 2 := by omega
    simp only [late, if_false, month, if_true]
    rw [show (((marchMonth (days + epochDay - yearStart (marchYear (days + epochDay))) -
      9).toNat : Int) + 9) = marchMonth (days + epochDay -
        yearStart (marchYear (days + epochDay))) by omega,
      show marchYear (days + epochDay) + 1 - 1 = marchYear (days + epochDay) by omega]
    omega

end Date

end MarketSignals
