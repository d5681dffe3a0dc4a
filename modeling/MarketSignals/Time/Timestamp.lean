import MarketSignals.Time.Calendar

/-!
# Points in time

A point in time in UTC, to the nanosecond, within the years −262143 to 262142. The nanoseconds of a
leap second are counted on from the second before it, so there are points of more than a thousand
million nanoseconds. Clocks have leap seconds behind a second 59 only; points may lie behind any
second. Points are ordered by second, then nanosecond.

## Main results

* `lt_irrefl`, `lt_trans`, `lt_trichotomy` — the order is linear.
* `daysBefore?_eq_none_iff` — a number of days before a point is missing exactly when it would fall
  before the first point.
-/

namespace MarketSignals

/-- The nanoseconds of a second. -/
def nanosPerSecond : Nat := 1000000000

/-- The seconds of a day. -/
def secondsPerDay : Nat := 86400

/-- The first second there is: the first of January of year −262143. -/
def firstSecond : Int :=
  Date.toDays ⟨-262143, 1, 1⟩ * secondsPerDay

/-- The last second there is: that before the first of January of year 262143. -/
def lastSecond : Int :=
  Date.toDays ⟨262143, 1, 1⟩ * secondsPerDay - 1

/-- Whether a second and its nanoseconds make a point in time. -/
def IsPoint (second : Int) (nano : Nat) : Prop :=
  firstSecond ≤ second ∧ second ≤ lastSecond ∧ nano < 2 * nanosPerSecond

instance (second : Int) (nano : Nat) : Decidable (IsPoint second nano) :=
  inferInstanceAs (Decidable (_ ∧ _ ∧ _))

/-- A point in time. -/
structure Timestamp where
  /-- The seconds since 1970-01-01 00:00:00 UTC, leap seconds not counted. -/
  second : Int
  /-- The nanoseconds since the start of the second. -/
  nano : Nat
  /-- The second is in range, and there are less than two seconds of nanoseconds. -/
  isPoint : IsPoint second nano

namespace Timestamp

@[ext] theorem ext {a b : Timestamp} (second : a.second = b.second) (nano : a.nano = b.nano) :
    a = b := by
  cases a; cases b; simp_all

instance : DecidableEq Timestamp := fun a b =>
  if h : a.second = b.second ∧ a.nano = b.nano then isTrue (ext h.1 h.2)
  else isFalse fun e => h ⟨congrArg second e, congrArg nano e⟩

/-- The point that a second and its nanoseconds make, if they make one. -/
def of? (second : Int) (nano : Nat) : Option Timestamp :=
  if h : IsPoint second nano then some ⟨second, nano, h⟩ else none

theorem of?_eq_none_iff {second : Int} {nano : Nat} :
    of? second nano = none ↔ ¬ IsPoint second nano := by
  simp [of?]

/-- 1970-01-01 00:00:00 UTC. -/
def epoch : Timestamp :=
  ⟨0, 0, by decide⟩

instance : Inhabited Timestamp :=
  ⟨epoch⟩

/-- A number that orders points in time. -/
def position (t : Timestamp) : Int :=
  t.second * (2 * nanosPerSecond) + t.nano

instance : LT Timestamp :=
  ⟨fun a b => a.position < b.position⟩

instance : LE Timestamp :=
  ⟨fun a b => a.position ≤ b.position⟩

instance (a b : Timestamp) : Decidable (a < b) :=
  inferInstanceAs (Decidable (a.position < b.position))

instance (a b : Timestamp) : Decidable (a ≤ b) :=
  inferInstanceAs (Decidable (a.position ≤ b.position))

theorem lt_def {a b : Timestamp} : a < b ↔ a.position < b.position :=
  Iff.rfl

theorem le_def {a b : Timestamp} : a ≤ b ↔ a.position ≤ b.position :=
  Iff.rfl

/-- The nanoseconds stay below two seconds. -/
theorem nano_lt (t : Timestamp) : t.nano < 2 * nanosPerSecond :=
  t.isPoint.2.2

/-- Points are compared by second, then nanosecond. -/
theorem lt_iff {a b : Timestamp} :
    a < b ↔ a.second < b.second ∨ a.second = b.second ∧ a.nano < b.nano := by
  have ha := a.nano_lt
  have hb := b.nano_lt
  simp only [lt_def, position, nanosPerSecond] at *
  omega

theorem position_inj {a b : Timestamp} : a.position = b.position ↔ a = b := by
  constructor
  · intro h
    have ha := a.nano_lt
    have hb := b.nano_lt
    simp only [position, nanosPerSecond] at *
    exact ext (by omega) (by omega)
  · rintro rfl; rfl

theorem lt_irrefl (a : Timestamp) : ¬ a < a :=
  Int.lt_irrefl _

theorem lt_trans {a b c : Timestamp} (hab : a < b) (hbc : b < c) : a < c :=
  Int.lt_trans hab hbc

theorem lt_asymm {a b : Timestamp} (h : a < b) : ¬ b < a :=
  Int.lt_asymm h

theorem ne_of_lt {a b : Timestamp} (h : a < b) : a ≠ b := fun e =>
  lt_irrefl b (e ▸ h)

theorem not_lt {a b : Timestamp} : ¬ a < b ↔ b ≤ a :=
  Int.not_lt

theorem le_refl (a : Timestamp) : a ≤ a :=
  Int.le_refl _

theorem le_of_lt {a b : Timestamp} (h : a < b) : a ≤ b :=
  Int.le_of_lt h

theorem le_trans {a b c : Timestamp} (hab : a ≤ b) (hbc : b ≤ c) : a ≤ c :=
  Int.le_trans hab hbc

theorem le_antisymm {a b : Timestamp} (hab : a ≤ b) (hba : b ≤ a) : a = b :=
  position_inj.mp (Int.le_antisymm hab hba)

theorem not_le {a b : Timestamp} : ¬ a ≤ b ↔ b < a :=
  Int.not_le

theorem le_total (a b : Timestamp) : a ≤ b ∨ b ≤ a :=
  Int.le_total _ _

theorem lt_of_lt_of_le {a b c : Timestamp} (hab : a < b) (hbc : b ≤ c) : a < c :=
  Int.lt_of_lt_of_le hab hbc

theorem lt_of_le_of_ne {a b : Timestamp} (h : a ≤ b) (hne : a ≠ b) : a < b :=
  Int.lt_iff_le_and_ne.mpr ⟨h, fun e => hne (position_inj.mp e)⟩

theorem lt_trichotomy (a b : Timestamp) : a < b ∨ a = b ∨ b < a := by
  rw [← position_inj, lt_def, lt_def]
  omega

/-- The nanoseconds since 1970-01-01 00:00:00 UTC, a leap second counted into the next. -/
def nanos (t : Timestamp) : Int :=
  t.second * nanosPerSecond + t.nano

/-- The point that lies some nanoseconds after 1970-01-01 00:00:00 UTC, leap seconds not counted. -/
def ofNanos? (nanos : Int) : Option Timestamp :=
  of? (nanos / nanosPerSecond) (nanos % nanosPerSecond).toNat

/-- The point some whole days earlier, if there is one. A leap second has no counterpart on other
days and counts as the second after it. -/
def daysBefore? (t : Timestamp) (days : Nat) : Option Timestamp :=
  if days = 0 then some t
  else if t.nano < nanosPerSecond then of? (t.second - days * secondsPerDay) t.nano
  else of? (t.second + 1 - days * secondsPerDay) (t.nano - nanosPerSecond)

/-- A number of days before a point is missing exactly when it would fall before the first point. -/
theorem daysBefore?_eq_none_iff {t : Timestamp} {days : Nat} :
    t.daysBefore? days = none ↔
      days ≠ 0 ∧ (t.second + t.nano / nanosPerSecond) - days * secondsPerDay < firstSecond := by
  have point := t.isPoint
  have bound := t.nano_lt
  by_cases zero : days = 0
  · simp [daysBefore?, zero]
  · by_cases plain : t.nano < nanosPerSecond
    · rw [daysBefore?, if_neg zero, if_pos plain, of?_eq_none_iff]
      simp only [IsPoint, nanosPerSecond, secondsPerDay] at *
      omega
    · rw [daysBefore?, if_neg zero, if_neg plain, of?_eq_none_iff]
      simp only [IsPoint, nanosPerSecond, secondsPerDay] at *
      omega

end Timestamp

end MarketSignals
