import MarketSignals.Time.Timestamp

/-!
# Days before a point in time

Where a number of whole days before a point lies. Points are placed on a line of nanoseconds, on
which a leap second and the second after it share their places; the point days before another is
the one outside a leap second. At the beginning of the line the days may reach past the first point,
and then there is none.

## Main results

* `Timestamp.daysBefore?_eq_some_iff`: the point that is found is the one that lies there.
* `Timestamp.daysBefore?_eq_none_iff_nanos`: none is found exactly before the first point.
-/

namespace MarketSignals

/-- The nanoseconds of a day. -/
def nanosPerDay : Int :=
  secondsPerDay * nanosPerSecond

namespace Timestamp

/-- The first point in time there is. -/
def first : Timestamp :=
  ⟨firstSecond, 0, by decide⟩

/-- No point is before the first. -/
theorem first_le (t : Timestamp) : first ≤ t := by
  have hrange := t.isPoint.1
  simp only [le_def, position, first, nanosPerSecond]
  omega

/-- Whether a point lies some whole days before another one. No other day has the leap second that
the other one may lie in. -/
structure IsDaysBefore (t : Timestamp) (days : Nat) (earlier : Timestamp) : Prop where
  /-- As many days of nanoseconds lie between them. -/
  nanos_eq : earlier.nanos = t.nanos - days * nanosPerDay
  /-- The point is not in a leap second, unless it is the other one. -/
  nano_lt : days ≠ 0 → earlier.nano < nanosPerSecond
  /-- No days before a point is the point. -/
  eq_self : days = 0 → earlier = t

/-- A second and its nanoseconds make the point that consists of them. -/
theorem of?_eq_some_iff {second : Int} {nano : Nat} {t : Timestamp} :
    of? second nano = some t ↔ t.second = second ∧ t.nano = nano := by
  constructor
  · intro h
    rw [of?] at h
    split at h
    · obtain rfl := Option.some.inj h
      exact ⟨rfl, rfl⟩
    · cases h
  · rintro ⟨rfl, rfl⟩
    exact dif_pos t.isPoint

/-- A second and its nanoseconds are found at their place of the line. -/
theorem ofNanos?_eq_of? {second : Int} {nano : Nat} (h : nano < nanosPerSecond) :
    ofNanos? (second * nanosPerSecond + nano) = of? second nano := by
  have hsecond : (second * nanosPerSecond + nano) / nanosPerSecond = second := by
    simp only [nanosPerSecond] at *
    omega
  have hnano : ((second * nanosPerSecond + nano) % nanosPerSecond).toNat = nano := by
    simp only [nanosPerSecond] at *
    omega
  rw [ofNanos?, hsecond, hnano]

/-- The point at a place of the line is the one that lies there outside a leap second. -/
theorem ofNanos?_eq_some_iff {place : Int} {t : Timestamp} :
    ofNanos? place = some t ↔ t.nanos = place ∧ t.nano < nanosPerSecond := by
  rw [ofNanos?, of?_eq_some_iff]
  simp only [nanos, nanosPerSecond]
  omega

/-- Days before a point are counted on the line. -/
theorem daysBefore?_of_ne_zero {days : Nat} (h : days ≠ 0) (t : Timestamp) :
    t.daysBefore? days = ofNanos? (t.nanos - days * nanosPerDay) := by
  have hnano := t.nano_lt
  rw [daysBefore?, if_neg h]
  split
  next hplain =>
    rw [← ofNanos?_eq_of? hplain]
    refine congrArg ofNanos? ?_
    simp only [nanos, nanosPerDay, secondsPerDay, nanosPerSecond]
    omega
  next hleap =>
    rw [← ofNanos?_eq_of? (by omega)]
    refine congrArg ofNanos? ?_
    simp only [nanos, nanosPerDay, secondsPerDay, nanosPerSecond] at *
    omega

/-- The point that is found some days before another one is the one that lies there. -/
theorem daysBefore?_eq_some_iff {t earlier : Timestamp} {days : Nat} :
    t.daysBefore? days = some earlier ↔ t.IsDaysBefore days earlier := by
  by_cases hdays : days = 0
  · subst hdays
    constructor
    · intro h
      obtain rfl : t = earlier := Option.some.inj h
      exact ⟨by omega, fun h => absurd rfl h, fun _ => rfl⟩
    · intro h
      rw [h.eq_self rfl]
      rfl
  · rw [daysBefore?_of_ne_zero hdays, ofNanos?_eq_some_iff]
    constructor
    · rintro ⟨hplace, hplain⟩
      exact ⟨hplace, fun _ => hplain, fun hzero => absurd hzero hdays⟩
    · rintro ⟨hplace, hplain, -⟩
      exact ⟨hplace, hplain hdays⟩

/-- One point lies some days before another one. -/
theorem IsDaysBefore.unique {t a b : Timestamp} {days : Nat} (ha : t.IsDaysBefore days a)
    (hb : t.IsDaysBefore days b) : a = b := by
  rw [← daysBefore?_eq_some_iff] at ha hb
  exact Option.some.inj (ha.symm.trans hb)

/-- None is found exactly where the days reach past the first point. -/
theorem daysBefore?_eq_none_iff_nanos {t : Timestamp} {days : Nat} :
    t.daysBefore? days = none ↔ t.nanos - days * nanosPerDay < first.nanos := by
  have hrange := t.isPoint.1
  have hnano := t.nano_lt
  rw [daysBefore?_eq_none_iff]
  simp only [nanos, first, nanosPerDay, secondsPerDay, nanosPerSecond] at *
  omega

end Timestamp

end MarketSignals
