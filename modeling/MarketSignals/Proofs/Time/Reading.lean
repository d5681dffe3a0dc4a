import Mathlib.Tactic.IntervalCases
import MarketSignals.Proofs.Text.Digits
import MarketSignals.Time.Reader

/-!
# Reading written times back

Every point in time that clocks have is read back from the text that documents hold, whatever its
year, with or without a fraction, and in a leap second too. Clocks have leap seconds at the end of a
minute only. A point in a leap second elsewhere has the text of a point in the next second, and is
read as that one.

The text is taken apart from the front, one reader at a time; what each leaves is what the next
starts from. That the parts then name the point again rests on the calendar: the date that is
written exists, and counts back to the day it was made from.

## Main results

* `Date.isValid_ofDays`: the date of a day exists.
* `Timestamp.settled_eq_self_iff`: the points that clocks have are those that their texts name.
* `Timestamp.read?_written`: what the text of any point in time is read as.
-/

namespace MarketSignals

/-! ### The calendar -/

namespace Date

/-- A month of a year counted from March has as many days as the calendar says. -/
theorem monthStart_succ_le {year month dayOfYear : Int} (hlow : 0 ≤ month) (hhigh : month < 12)
    (hstart : monthStart month ≤ dayOfYear) (hend : dayOfYear < monthStart (month + 1))
    (hyear : dayOfYear < 365 + (if isLeapYear (year + 1) then 1 else 0)) :
    dayOfYear - monthStart month + 1 ≤
      daysInMonth (if month < 10 then year else year + 1)
        (if month < 10 then month + 3 else month - 9).toNat := by
  unfold monthStart at hstart hend ⊢
  interval_cases month <;> simp [daysInMonth] at hstart hend hyear ⊢
  -- All months but February follow from where they start.
  all_goals try omega
  split at hyear
  next hleap =>
    rw [if_pos hleap]
    omega
  next hleap =>
    rw [if_neg hleap]
    omega

/-- **The date of a day exists.** -/
theorem isValid_ofDays (days : Int) : (ofDays days).isValid = true := by
  obtain ⟨hfirst, hlast⟩ := yearStart_marchYear (days + epochDay)
  have hlength := yearStart_succ (marchYear (days + epochDay))
  have hleap : (if isLeapYear (marchYear (days + epochDay) + 1) then (1 : Int) else 0) ≤ 1 := by
    split <;> decide
  obtain ⟨hlow, hhigh, hstart, hend⟩ := @monthStart_marchMonth
    (days + epochDay - yearStart (marchYear (days + epochDay))) (by omega) (by omega)
  have hfits := @monthStart_succ_le (marchYear (days + epochDay)) _ _ hlow hhigh hstart hend
    (by omega)
  rw [isValid, Bool.and_eq_true, decide_eq_true_eq, decide_eq_true_eq]
  simp only [ofDays]
  omega

/-- The parts of a date that exists have two digits at most. -/
theorem lt_of_isValid {d : Date} (hd : d.isValid = true) : d.month < 100 ∧ d.day < 100 := by
  simp only [isValid, Bool.and_eq_true, decide_eq_true_eq] at hd
  unfold daysInMonth at hd
  split at hd
  next => split at hd <;> omega
  all_goals omega

end Date

/-! ### Marks and numbers -/

namespace Timestamp

variable {rest : List Char}

theorem isBlank_of_isDigit {c : Char} (hc : c.isDigit = true) : Text.isBlank c = false := by
  have hrange := toNat_bounds_of_isDigit hc
  simp [Text.isBlank, Text.blankRanges]
  omega

theorem trimStart_cons {c : Char} (hc : Text.isBlank c = false) (rest : List Char) :
    Text.trimStart (c :: rest) = c :: rest := by
  simp [Text.trimStart, hc]

theorem trimStart_digits {ds : List Char} (hds : AreDigits ds) (rest : List Char) :
    Text.trimStart (ds ++ rest) = ds ++ rest := by
  obtain ⟨c, tail, rfl, hdigit⟩ := hds.exists_cons
  exact trimStart_cons (isBlank_of_isDigit hdigit) _

/-- As many digits as are wanted are read, or as many as there are. -/
theorem readNumber_append {most : Nat} {ds : List Char} (hds : AreDigits ds)
    (hmost : ds.length ≤ most)
    (hrest : ds.length = most ∨ ∀ c ∈ rest.head?, c.isDigit = false) :
    readNumber most (ds ++ rest) = some (Text.value ds, rest) := by
  have hdigits : ((ds ++ rest).take most).takeWhile Char.isDigit = ds := by
    rw [List.take_append, List.take_of_length_le hmost]
    refine hds.takeWhile_append fun c hc => ?_
    rw [List.head?_take] at hc
    split at hc
    · cases hc
    · exact hrest.elim (fun hall => by omega) fun hstop => hstop c hc
  unfold readNumber
  simp only [hdigits, List.drop_left]
  rw [if_neg]
  simpa using hds.1

theorem readPart_padded {n : Nat} (hn : n < 100) (rest : List Char) :
    readPart (Text.padded 2 n ++ rest) = some (n, rest) := by
  have hdigits := Text.areDigits_padded 2 n
  have hlength : (Text.padded 2 n).length = 2 := Text.length_padded_of_lt (by norm_num) hn
  rw [readPart, trimStart_digits hdigits, readNumber_append hdigits hlength.le (.inl hlength),
    Text.value_padded]

theorem readMark_cons {mark : Char} (hmark : Text.isBlank mark = false) (rest : List Char) :
    readMark mark (mark :: rest) = some rest := by
  rw [readMark, trimStart_cons hmark]
  exact if_pos rfl

theorem readLongNumber_append {ds : List Char} (hds : AreDigits ds)
    (hrest : ∀ c ∈ rest.head?, c.isDigit = false) :
    readLongNumber (ds ++ rest) = some (Text.value ds, rest) :=
  readNumber_append hds (by rw [List.length_append]; omega) (.inr hrest)

/-! ### Date and time of day -/

theorem readYear_yearText (year : Int) (hrest : ∀ c ∈ rest.head?, c.isDigit = false) :
    readYear (CalendarTime.yearText year ++ rest) = some (year, rest) := by
  unfold CalendarTime.yearText
  split
  next hplain =>
    have hdigits := Text.areDigits_padded 4 year.toNat
    have hlength : (Text.padded 4 year.toNat).length = 4 :=
      Text.length_padded_of_lt (by norm_num) (by omega)
    have hnumber : readNumber 4 (Text.padded 4 year.toNat ++ rest) = _ :=
      readNumber_append hdigits hlength.le (.inl hlength)
    have htrim := trimStart_digits hdigits rest
    obtain ⟨c, tail, hfirst, hdigit⟩ := hdigits.exists_cons
    rw [hfirst, List.cons_append] at hnumber htrim ⊢
    unfold readYear
    rw [htrim]
    split
    next hmark => exact absurd (List.cons.inj hmark).1 (ne_of_isDigit hdigit rfl)
    next hmark => exact absurd (List.cons.inj hmark).1 (ne_of_isDigit hdigit rfl)
    next =>
      rw [hnumber, ← hfirst, Text.value_padded]
      exact congrArg (fun y => some (y, rest)) (Int.toNat_of_nonneg hplain.1)
  next hsigned =>
    have hnumber := readLongNumber_append (Text.areDigits_padded 4 year.natAbs) hrest
    rw [Text.value_padded] at hnumber
    split
    next hneg =>
      have hsize : -(year.natAbs : Int) = year := by omega
      show (readLongNumber (Text.padded 4 year.natAbs ++ rest)).map _ = _
      rw [hnumber]
      exact congrArg (fun y => some (y, rest)) hsize
    next hpos =>
      have hsize : (year.natAbs : Int) = year := by omega
      show (readLongNumber (Text.padded 4 year.natAbs ++ rest)).map _ = _
      rw [hnumber]
      exact congrArg (fun y => some (y, rest)) hsize

theorem readDate_dateText {c : CalendarTime} (hmonth : c.date.month < 100)
    (hday : c.date.day < 100) (rest : List Char) :
    readDate (c.dateText ++ rest) = some (c.date, rest) := by
  have hyear : readYear (CalendarTime.yearText c.date.year ++
      '-' :: (Text.padded 2 c.date.month ++ '-' :: (Text.padded 2 c.date.day ++ rest))) = _ :=
    readYear_yearText c.date.year (by rintro c ⟨⟩; rfl)
  have htext : c.dateText ++ rest = CalendarTime.yearText c.date.year ++
      '-' :: (Text.padded 2 c.date.month ++ '-' :: (Text.padded 2 c.date.day ++ rest)) := by
    simp [CalendarTime.dateText]
  have hhyphen : ∀ rest, readMark '-' ('-' :: rest) = some rest := readMark_cons rfl
  rw [htext]
  simp [readDate, hyear, hhyphen, readPart_padded hmonth, readPart_padded hday]

/-- The first nine digits of a fraction are read, filled up with zeros. -/
theorem readFraction_append {ds : List Char} (hds : AreDigits ds)
    (hrest : ∀ c ∈ rest.head?, c.isDigit = false) :
    readFraction ('.' :: (ds ++ rest)) =
      some (Text.value (ds.take 9) * 10 ^ (9 - (ds.take 9).length), rest) := by
  simp only [readFraction, hds.takeWhile_append hrest, List.drop_left]
  rw [if_neg (by simpa using hds.1)]
  rfl

/-- A fraction in a number of places that fits nine. -/
theorem readFraction_padded {places n : Nat} (hplaces : 0 < places) (hnine : places ≤ 9)
    (hn : n < 10 ^ places) (hrest : ∀ c ∈ rest.head?, c.isDigit = false) :
    readFraction ('.' :: (Text.padded places n ++ rest)) =
      some (n * 10 ^ (9 - places), rest) := by
  have hlength := Text.length_padded_of_lt hplaces hn
  rw [readFraction_append (Text.areDigits_padded places n) hrest,
    List.take_of_length_le (hlength.trans_le hnine), hlength, Text.value_padded]

theorem readFraction_fractionText {c : CalendarTime} (hnano : c.nano < nanosPerSecond)
    (rest : List Char) :
    readFraction (c.fractionText ++ 'Z' :: rest) = some (c.nano, 'Z' :: rest) := by
  have hend : ∀ d ∈ ('Z' :: rest).head?, d.isDigit = false := by
    rintro d ⟨⟩
    rfl
  unfold nanosPerSecond at hnano
  unfold CalendarTime.fractionText
  split
  next hzero =>
    rw [hzero]
    rfl
  next =>
    split
    next hmillis =>
      rw [List.cons_append, readFraction_padded (by norm_num) (by norm_num) (by omega) hend]
      show some (c.nano / 1000000 * 1000000, 'Z' :: rest) = _
      rw [Nat.div_mul_cancel (Nat.dvd_of_mod_eq_zero hmillis)]
    next =>
      split
      next hmicros =>
        rw [List.cons_append, readFraction_padded (by norm_num) (by norm_num) (by omega) hend]
        show some (c.nano / 1000 * 1000, 'Z' :: rest) = _
        rw [Nat.div_mul_cancel (Nat.dvd_of_mod_eq_zero hmicros)]
      next =>
        rw [List.cons_append, readFraction_padded (by norm_num) le_rfl (by omega) hend,
          Nat.sub_self, pow_zero, Nat.mul_one]

/-- Behind hour, minute and second the fraction is read. -/
theorem readClock_append {c : CalendarTime} (hhour : c.hour < 100) (hminute : c.minute < 100)
    (hsecond : c.second < 100) (rest : List Char) :
    readClock (c.clockText ++ rest) =
      (readFraction rest).map fun (nano, rest) => ((c.hour, c.minute, c.second, nano), rest) := by
  have htext : c.clockText ++ rest = Text.padded 2 c.hour ++
      ':' :: (Text.padded 2 c.minute ++ ':' :: (Text.padded 2 c.second ++ rest)) := by
    simp [CalendarTime.clockText]
  have hcolon : ∀ rest, readMark ':' (':' :: rest) = some rest := readMark_cons rfl
  rw [htext]
  simp only [readClock, hcolon, readPart_padded hhour, readPart_padded hminute,
    readPart_padded hsecond, Option.bind_eq_bind, Option.bind_some]
  cases readFraction rest <;> rfl

theorem readClock_clockText {c : CalendarTime} (hhour : c.hour < 100) (hminute : c.minute < 100)
    (hsecond : c.second < 100) (hnano : c.nano < nanosPerSecond) (rest : List Char) :
    readClock (c.clockText ++ c.fractionText ++ 'Z' :: rest) =
      some ((c.hour, c.minute, c.second, c.nano), 'Z' :: rest) := by
  rw [List.append_assoc, readClock_append hhour hminute hsecond, readFraction_fractionText hnano]
  rfl

/-! ### Leap seconds -/

/-- Whether clocks have a point in time: one in a leap second lies behind the second 59 of a
minute. -/
def OnClock (t : Timestamp) : Prop :=
  t.nano < nanosPerSecond ∨ t.second % 60 = 59

instance (t : Timestamp) : Decidable t.OnClock :=
  inferInstanceAs (Decidable (_ ∨ _))

/-- Behind the second of a point that clocks do not have there is another second. -/
theorem isPoint_next {t : Timestamp} (ht : ¬ t.OnClock) :
    IsPoint (t.second + 1) (t.nano - nanosPerSecond) := by
  obtain ⟨hfirst, hlast, hnano⟩ := t.isPoint
  have hminute : lastSecond % 60 = 59 := by decide
  simp only [OnClock, IsPoint, nanosPerSecond] at *
  omega

/-- The point that the text of a point in time names: a leap second that clocks do not have counts
as the next second. -/
def settled (t : Timestamp) : Timestamp :=
  if ht : t.OnClock then t else ⟨t.second + 1, t.nano - nanosPerSecond, isPoint_next ht⟩

theorem settled_of_onClock {t : Timestamp} (ht : t.OnClock) : t.settled = t :=
  dif_pos ht

theorem onClock_settled (t : Timestamp) : t.settled.OnClock := by
  have hnano := t.nano_lt
  rw [settled]
  split
  next ht => exact ht
  next =>
    left
    show t.nano - nanosPerSecond < nanosPerSecond
    omega

/-- The points that clocks have are those that their texts name. -/
theorem settled_eq_self_iff {t : Timestamp} : t.settled = t ↔ t.OnClock := by
  constructor
  · intro h
    rw [← h]
    exact t.onClock_settled
  · exact settled_of_onClock

/-- The point that a text names has that text. -/
theorem calendar_settled (t : Timestamp) : t.settled.calendar = t.calendar := by
  have hnano := t.nano_lt
  by_cases ht : t.OnClock
  · rw [settled_of_onClock ht]
  · rw [settled, dif_neg ht]
    simp only [OnClock, nanosPerSecond] at ht hnano
    have hlate : 1000000000 ≤ t.nano := by omega
    have hday : (t.second + 1) / 86400 = t.second / 86400 := by omega
    have hsecond : ((t.second + 1) % 86400).toNat = (t.second % 86400).toNat + 1 := by omega
    have hplain : ¬ 1000000000 ≤ t.nano - 1000000000 := by omega
    simp only [calendar, secondsPerDay, nanosPerSecond, Nat.cast_ofNat, hday, hsecond, hlate,
      hplain, if_true, if_false, CalendarTime.mk.injEq, true_and, and_true]
    omega

theorem written_settled (t : Timestamp) : t.settled.written = t.written := by
  simp only [written, joined, calendar_settled]

/-! ### The point in time -/

/-- What the parts of a point in time range over. -/
theorem calendar_bounds (t : Timestamp) :
    t.calendar.hour < 24 ∧ t.calendar.minute < 60 ∧ t.calendar.second ≤ 60 ∧
      t.calendar.nano < nanosPerSecond := by
  have hnano := t.nano_lt
  unfold nanosPerSecond at hnano ⊢
  by_cases hlate : 1000000000 ≤ t.nano
  · simp only [calendar, secondsPerDay, nanosPerSecond, hlate, if_true]
    omega
  · simp only [calendar, secondsPerDay, nanosPerSecond, hlate, if_false]
    omega

section

variable {t : Timestamp} (ht : t.OnClock)
include ht

/-- A second of 60 marks a leap second. -/
theorem calendar_second_eq_sixty_iff : t.calendar.second = 60 ↔ nanosPerSecond ≤ t.nano := by
  by_cases hlate : nanosPerSecond ≤ t.nano
  · have hlast : t.second % 60 = 59 := ht.resolve_left (Nat.not_lt.mpr hlate)
    simp only [calendar, secondsPerDay, hlate, if_true, iff_true]
    omega
  · simp only [calendar, secondsPerDay, hlate, if_false, iff_false]
    omega

/-- Date and time of day name the second; a leap second has that of the second before it. -/
theorem second_eq_calendar :
    t.second = t.calendar.date.toDays * secondsPerDay +
      ((t.calendar.hour * 3600 + t.calendar.minute * 60 +
        if t.calendar.second = 60 then 59 else t.calendar.second : Nat)) := by
  have hday : t.calendar.date.toDays = t.second / secondsPerDay := Date.toDays_ofDays _
  have hleap := calendar_second_eq_sixty_iff ht
  rw [hday]
  by_cases hlate : nanosPerSecond ≤ t.nano
  · have hlast : t.second % 60 = 59 := ht.resolve_left (Nat.not_lt.mpr hlate)
    rw [if_pos (hleap.mpr hlate)]
    simp only [calendar, secondsPerDay]
    omega
  · rw [if_neg fun h => hlate (hleap.mp h)]
    simp only [calendar, secondsPerDay, hlate, if_false] at *
    omega

/-- The nanoseconds of a leap second are counted from the second before it. -/
theorem nano_eq_calendar :
    t.nano = if t.calendar.second = 60 then t.calendar.nano + nanosPerSecond
      else t.calendar.nano := by
  have hleap := calendar_second_eq_sixty_iff ht
  by_cases hlate : nanosPerSecond ≤ t.nano
  · rw [if_pos (hleap.mpr hlate)]
    simp only [calendar, hlate, if_true]
    omega
  · rw [if_neg fun h => hlate (hleap.mp h)]
    simp only [calendar, hlate, if_false]

end

/-- Parts that exist name the point that lies at them, the offset from UTC taken off. -/
theorem ofParts?_eq_some {date : Date} {hour minute second nano : Nat} {offset : Int}
    {t : Timestamp} (hdate : date.isValid = true) (hhour : hour < 24) (hminute : minute < 60)
    (hsecond : second ≤ 60) (hoffset : offset.natAbs < secondsPerDay)
    (hhere : t.second + offset = date.toDays * secondsPerDay +
      ((hour * 3600 + minute * 60 + if second = 60 then 59 else second : Nat)))
    (hnano : t.nano = if second = 60 then nano + nanosPerSecond else nano)
    (hpoint : IsPoint (t.second + offset) t.nano) :
    ofParts? date (hour, minute, second, nano) offset = some t := by
  have hthere : of? (t.second + offset) t.nano = some ⟨_, _, hpoint⟩ := dif_pos hpoint
  have hback : of? t.second t.nano = some t := dif_pos t.isPoint
  simp only [ofParts?]
  rw [if_pos ⟨hdate, hhour, hminute, hsecond, hoffset⟩, ← hhere, ← hnano, Int.add_sub_cancel,
    hthere, hback]
  rfl

theorem ofParts?_calendar {t : Timestamp} (ht : t.OnClock) :
    ofParts? t.calendar.date
      (t.calendar.hour, t.calendar.minute, t.calendar.second, t.calendar.nano) 0 = some t := by
  obtain ⟨hhour, hminute, hsecond, -⟩ := t.calendar_bounds
  have hhere : t.second + 0 = _ := (Int.add_zero _).trans (second_eq_calendar ht)
  have hpoint : IsPoint (t.second + 0) t.nano := by
    rw [Int.add_zero]
    exact t.isPoint
  exact ofParts?_eq_some (Date.isValid_ofDays _) hhour hminute hsecond (by decide) hhere
    (nano_eq_calendar ht) hpoint

theorem readOffset_utc : readOffset (Text.trimStart ['Z']) = some (0, []) := by
  decide

/-- **A written point in time is read as the point that its text names**, which is the point itself
where clocks have it. -/
theorem read?_written (t : Timestamp) : read? t.written = some t.settled := by
  have htext : t.written = t.calendar.dateText ++ 'T' :: (t.calendar.clockText ++
      t.calendar.fractionText ++ ['Z']) := by
    simp [written, joined]
  obtain ⟨hmonth, hday⟩ := Date.lt_of_isValid (d := t.calendar.date) (Date.isValid_ofDays _)
  obtain ⟨hhour, hminute, hsecond, hnano⟩ := t.calendar_bounds
  have hclock := readClock_clockText (c := t.calendar) (by omega) (by omega) (by omega) hnano []
  rw [htext, read?, readDate_dateText hmonth hday]
  simp only [Option.bind_eq_bind, Option.bind_some, beq_self_eq_true, Bool.true_or, if_true, hclock,
    readOffset_utc]
  rw [← t.calendar_settled]
  exact ofParts?_calendar t.onClock_settled

end Timestamp

end MarketSignals
