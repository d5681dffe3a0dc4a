import Mathlib.Tactic.IntervalCases
import MarketSignals.Time.Timestamp

/-!
# The order of dates

Of two dates that exist, the one that comes first in the calendar counts the fewer days. The days
are counted in years from March to February, so this is seen in two steps: neither a month nor a
year counted from March is longer than the time to the next, and the order of dates is the same
whether their years begin in January or in March.

## Main results

* `Date.toDays_lt_toDays`: the days of dates are in the order of the dates.
* `Date.toDays_bounds`: where the days of the years 0 to 9999 lie.
-/

namespace MarketSignals.Date

/-- Whether a date comes before another one in the calendar. -/
def Precedes (a b : Date) : Prop :=
  a.year < b.year ∨ a.year = b.year ∧ (a.month < b.month ∨ a.month = b.month ∧ a.day < b.day)

/-- The year, counted from March, of a date. -/
def yearFromMarch (d : Date) : Int :=
  if d.month ≤ 2 then d.year - 1 else d.year

/-- The month, counted from March, of a date. -/
def monthFromMarch (d : Date) : Int :=
  if d.month ≤ 2 then d.month + 9 else d.month - 3

theorem toDays_eq (d : Date) : d.toDays =
    yearStart d.yearFromMarch + monthStart d.monthFromMarch + (d.day - 1) - epochDay :=
  rfl

variable {a b d : Date}

/-- What the numbers of a date that exists range over. -/
theorem bounds_of_isValid (hd : d.isValid = true) :
    1 ≤ d.month ∧ d.month ≤ 12 ∧ 1 ≤ d.day ∧ d.day ≤ daysInMonth d.year d.month := by
  rw [isValid, Bool.and_eq_true, decide_eq_true_eq, decide_eq_true_eq] at hd
  have hmonth : 1 ≤ d.month ∧ d.month ≤ 12 := by
    by_contra hnone
    have hzero : daysInMonth d.year d.month = 0 := by
      unfold daysInMonth
      split <;> omega
    omega
  exact ⟨hmonth.1, hmonth.2, hd⟩

theorem monthFromMarch_bounds (hd : d.isValid = true) :
    0 ≤ d.monthFromMarch ∧ d.monthFromMarch < 12 := by
  obtain ⟨hlow, hhigh, -, -⟩ := bounds_of_isValid hd
  unfold monthFromMarch
  split <;> omega

/-- The order of dates is that of their years, months and days counted from March. -/
theorem Precedes.fromMarch (ha : a.isValid = true) (hb : b.isValid = true) (h : a.Precedes b) :
    a.yearFromMarch < b.yearFromMarch ∨ a.yearFromMarch = b.yearFromMarch ∧
      (a.monthFromMarch < b.monthFromMarch ∨
        a.monthFromMarch = b.monthFromMarch ∧ a.day < b.day) := by
  obtain ⟨halow, hahigh, -, -⟩ := bounds_of_isValid ha
  obtain ⟨hblow, hbhigh, -, -⟩ := bounds_of_isValid hb
  unfold Precedes at h
  unfold yearFromMarch monthFromMarch
  split <;> split <;> omega

/-- A date lies before the next month; the last month of a year counted from March, February, lies
before the next year. -/
theorem day_lt_next (hd : d.isValid = true) :
    (d.monthFromMarch < 11 →
        monthStart d.monthFromMarch + (d.day - 1) < monthStart (d.monthFromMarch + 1)) ∧
      yearStart d.yearFromMarch + monthStart d.monthFromMarch + (d.day - 1) <
        yearStart (d.yearFromMarch + 1) := by
  obtain ⟨hlow, hhigh, -, hday⟩ := bounds_of_isValid hd
  have hlength := yearStart_succ d.yearFromMarch
  obtain ⟨year, month, day⟩ := d
  simp only [yearFromMarch, monthFromMarch] at hlength ⊢
  rw [hlength]
  unfold monthStart
  by_cases hfebruary : month = 2
  · subst hfebruary
    simp [daysInMonth] at hday ⊢
    split at hday
    next hleap =>
      rw [if_pos hleap]
      omega
    next hleap =>
      rw [if_neg hleap]
      omega
  · -- The leap day comes last, so that no other month asks for it.
    have hleapDay : 0 ≤
        if isLeapYear (yearFromMarch ⟨year, month, day⟩ + 1) then (1 : Int) else 0 := by
      split <;> decide
    unfold yearFromMarch at hleapDay
    interval_cases month <;> simp [daysInMonth] at hday hfebruary hleapDay ⊢ <;> omega

/-- Years counted from March begin one after the other. -/
theorem yearStart_mono {year later : Int} (h : year ≤ later) :
    yearStart year ≤ yearStart later := by
  unfold yearStart
  omega

/-- **The days of dates are in the order of the dates.** -/
theorem toDays_lt_toDays (ha : a.isValid = true) (hb : b.isValid = true) (h : a.Precedes b) :
    a.toDays < b.toDays := by
  obtain ⟨hnextMonth, hnextYear⟩ := day_lt_next ha
  obtain ⟨hstart, hend⟩ := monthFromMarch_bounds hb
  obtain ⟨-, -, hday, -⟩ := bounds_of_isValid hb
  rw [toDays_eq, toDays_eq]
  rcases h.fromMarch ha hb with hyear | ⟨hyear, hmonth | ⟨hmonth, hdays⟩⟩
  · have hstarts := yearStart_mono (Int.add_one_le_of_lt hyear)
    have hmonthStart : 0 ≤ monthStart b.monthFromMarch := by
      unfold monthStart
      omega
    omega
  · have hbefore := hnextMonth (by omega)
    have hstarts : monthStart (a.monthFromMarch + 1) ≤ monthStart b.monthFromMarch := by
      unfold monthStart
      omega
    rw [hyear]
    omega
  · rw [hyear, hmonth]
    omega

/-- Where the days of the years 0 to 9999 lie. -/
theorem toDays_bounds (hd : d.isValid = true) (hlow : 0 ≤ d.year) (hhigh : d.year ≤ 9999) :
    toDays ⟨0, 1, 1⟩ ≤ d.toDays ∧ d.toDays < toDays ⟨10000, 1, 1⟩ := by
  obtain ⟨hmonth, -, hday, -⟩ := bounds_of_isValid hd
  constructor
  · by_cases hfirst : d = ⟨0, 1, 1⟩
    · rw [hfirst]
    · refine (toDays_lt_toDays (by decide) hd ?_).le
      obtain ⟨year, month, day⟩ := d
      simp only [Precedes, mk.injEq] at hfirst hmonth hday hlow ⊢
      omega
  · exact toDays_lt_toDays hd (by decide) (.inl (Int.lt_add_one_of_le hhigh))

end MarketSignals.Date
