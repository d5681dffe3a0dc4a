import MarketSignals.Proofs.Database.Rows
import MarketSignals.Proofs.Text.Order
import MarketSignals.Proofs.Time.Rfc3339

/-!
# Literals of the database

The statements that drop old history take no parameters, so the time of the cutoff stands in them as
a text. That text is a time in RFC 3339, that of the cutoff with its fraction cut to whole
microseconds: a later time would drop what is to be kept. And as all its numbers have fixed widths,
the texts are in the order of the times.

For the order, the numbers of a literal are compared from the year on. Where the dates differ their
days decide, which are in the order of the dates; otherwise the time of day decides, in which a
leap second stands as the second 60 between the second 59 and the next minute. That is where clocks
have leap seconds; anywhere else the literal of a leap second is one of the next second.

## Main results

* `Timestamp.denotes_literal`: a literal denotes the point in time cut to whole microseconds.
* `Timestamp.bytes_literal_lt_iff`: literals are in the order of the points so cut.
* `Timestamp.nanos_lt_of_micros_lt`: what the database finds before a cutoff is from before it.
* `Timestamp.literal_never_later`: what a literal denotes, how far it is from the point in time, and
  in which order literals are.
-/

namespace MarketSignals.Timestamp

variable {t u : Timestamp}

/-! ### Whole microseconds -/

/-- A second with its nanoseconds cut to microseconds is a point in time; a leap second stays a leap
second. -/
theorem isPoint_cut (t : Timestamp) : IsPoint t.second (t.nano / 1000 * 1000) := by
  obtain ⟨hfirst, hlast, hnano⟩ := t.isPoint
  exact ⟨hfirst, hlast, (Nat.div_mul_le_self _ _).trans_lt hnano⟩

/-- A point in time with its fraction cut to whole microseconds. -/
def cutToMicros (t : Timestamp) : Timestamp :=
  ⟨t.second, t.nano / 1000 * 1000, t.isPoint_cut⟩

theorem cutToMicros_le (t : Timestamp) : t.cutToMicros ≤ t := by
  simp only [le_def, position, cutToMicros]
  omega

/-- Less than a microsecond is cut. -/
theorem nanos_lt_cutToMicros (t : Timestamp) : t.nanos < t.cutToMicros.nanos + 1000 := by
  simp only [nanos, cutToMicros]
  omega

theorem cutToMicros_mono (h : t ≤ u) : t.cutToMicros ≤ u.cutToMicros := by
  have ht := t.nano_lt
  have hu := u.nano_lt
  simp only [le_def, position, cutToMicros, nanosPerSecond] at *
  omega

/-- What the database finds before a cutoff that was cut is from before the cutoff. -/
theorem nanos_lt_of_micros_lt (h : u.micros < t.cutToMicros.micros) : u.nanos < t.nanos := by
  have hcut : t.cutToMicros.micros * 1000 = t.cutToMicros.nanos :=
    micros_mul (Nat.dvd_mul_left 1000 _)
  have hle : t.cutToMicros.nanos ≤ t.nanos := by
    simp only [nanos, cutToMicros]
    omega
  by_contra hlate
  have hmicros : t.cutToMicros.micros ≤ u.micros :=
    Int.add_le_add_right (Int.tdiv_le_tdiv (by decide) (by omega)) _
  omega

/-! ### What a literal denotes -/

/-- Whether the year of a point in time has four digits and no sign. -/
def HasPlainYear (t : Timestamp) : Prop :=
  0 ≤ t.calendar.date.year ∧ t.calendar.date.year ≤ 9999

instance (t : Timestamp) : Decidable t.HasPlainYear :=
  inferInstanceAs (Decidable (_ ∧ _))

theorem yearText_of_hasPlainYear (ht : t.HasPlainYear) :
    CalendarTime.yearText t.calendar.date.year = Text.padded 4 t.calendar.date.year.toNat :=
  if_pos ht

/-- **A literal denotes the point in time cut to whole microseconds.** -/
theorem denotes_literal (ht : t.HasPlainYear) (htime : t.OnClock) :
    Rfc3339.Denotes t.literal t.cutToMicros := by
  obtain ⟨hhour, hminute, hsecond, hnano⟩ := t.calendar_bounds
  have hmicros : Text.value (Text.padded 6 (t.calendar.nano / 1000)) * nanosPerSecond /
      10 ^ (Text.padded 6 (t.calendar.nano / 1000)).length = t.calendar.nano / 1000 * 1000 := by
    unfold nanosPerSecond at hnano ⊢
    rw [Text.value_padded, Text.length_padded_of_lt (by norm_num) (by omega)]
    omega
  have hfraction := Rfc3339.IsFraction.digits (Text.areDigits_padded 6 (t.calendar.nano / 1000))
  have hsame : t.second + 0 = _ := (Int.add_zero _).trans (second_eq_calendar htime)
  have hcut : t.cutToMicros.nano = if t.calendar.second = 60 then
      t.calendar.nano / 1000 * 1000 + nanosPerSecond else t.calendar.nano / 1000 * 1000 := by
    show t.nano / 1000 * 1000 = _
    rw [nano_eq_calendar htime]
    unfold nanosPerSecond
    split <;> omega
  rw [hmicros] at hfraction
  have hdenotes : Rfc3339.Denotes _ t.cutToMicros :=
    Rfc3339.Denotes.intro ht (Date.isValid_ofDays _) (.inl rfl) ⟨hhour, hminute, hsecond⟩
      hfraction (.utc (.inl rfl)) hsame hcut
  convert hdenotes using 1
  simp [literal, CalendarTime.dateText, CalendarTime.clockText, yearText_of_hasPlainYear ht]

/-! ### The order of literals -/

/-- The widths of the numbers of a literal, and what stands behind them. -/
def literalLayout : List (ℕ × Char) :=
  [(4, '-'), (2, '-'), (2, 'T'), (2, ':'), (2, ':'), (2, '.'), (6, 'Z')]

/-- The numbers of a literal. -/
def literalNumbers (t : Timestamp) : List ℕ :=
  [t.calendar.date.year.toNat, t.calendar.date.month, t.calendar.date.day, t.calendar.hour,
    t.calendar.minute, t.calendar.second, t.calendar.nano / 1000]

theorem literal_eq_fields (ht : t.HasPlainYear) :
    t.literal = Text.fields literalLayout t.literalNumbers := by
  simp [literal, CalendarTime.dateText, CalendarTime.clockText, yearText_of_hasPlainYear ht,
    literalLayout, literalNumbers, Text.fields]

theorem fits_literalNumbers (ht : t.HasPlainYear) :
    Text.Fits literalLayout t.literalNumbers := by
  obtain ⟨hhour, hminute, hsecond, hnano⟩ := t.calendar_bounds
  obtain ⟨hmonth, hday⟩ := Date.lt_of_isValid (d := t.calendar.date) (Date.isValid_ofDays _)
  obtain ⟨-, hyear⟩ := ht
  unfold nanosPerSecond at hnano
  simp only [Text.Fits, literalLayout, literalNumbers, List.forall₂_cons, List.Forall₂.nil]
  norm_num
  omega

/-- The days of points decide where their dates differ. -/
theorem second_lt_of_precedes (h : t.calendar.date.Precedes u.calendar.date) :
    t.second < u.second := by
  have hdays : t.calendar.date.toDays = t.second / secondsPerDay := Date.toDays_ofDays _
  have hdays' : u.calendar.date.toDays = u.second / secondsPerDay := Date.toDays_ofDays _
  have hless : t.calendar.date.toDays < u.calendar.date.toDays :=
    Date.toDays_lt_toDays (Date.isValid_ofDays _) (Date.isValid_ofDays _) h
  rw [hdays, hdays'] at hless
  unfold secondsPerDay at hless
  omega

/-- On one day the time of day decides. -/
theorem cutToMicros_lt_of_clock_lt (ht : t.OnClock) (hu : u.OnClock)
    (hdate : t.calendar.date = u.calendar.date)
    (h : [t.calendar.hour, t.calendar.minute, t.calendar.second, t.calendar.nano / 1000] <
      [u.calendar.hour, u.calendar.minute, u.calendar.second, u.calendar.nano / 1000]) :
    t.cutToMicros < u.cutToMicros := by
  obtain ⟨hhour, hminute, hsecond, hnano⟩ := t.calendar_bounds
  obtain ⟨hhour', hminute', hsecond', hnano'⟩ := u.calendar_bounds
  have hall := second_eq_calendar ht
  have hall' := second_eq_calendar hu
  have hfraction := nano_eq_calendar ht
  have hfraction' := nano_eq_calendar hu
  simp only [List.cons_lt_cons_iff, List.not_lt_nil, and_false, or_false] at h
  rw [hdate] at hall
  rw [lt_iff]
  show t.second < u.second ∨ t.second = u.second ∧ t.nano / 1000 * 1000 < u.nano / 1000 * 1000
  unfold nanosPerSecond at hnano hnano' hfraction hfraction'
  by_cases hleap : t.calendar.second = 60 <;> by_cases hleap' : u.calendar.second = 60 <;>
    simp only [hleap, hleap', if_true, if_false] at hall hall' hfraction hfraction' h <;> omega

/-- Where the numbers of a literal come first, the point in time does. -/
theorem cutToMicros_lt_of_literalNumbers_lt (ht : t.HasPlainYear) (hu : u.HasPlainYear)
    (htime : t.OnClock) (htime' : u.OnClock) (h : t.literalNumbers < u.literalNumbers) :
    t.cutToMicros < u.cutToMicros := by
  have hbefore : t.calendar.date.Precedes u.calendar.date → t.cutToMicros < u.cutToMicros :=
    fun hdate => lt_iff.mpr (.inl (second_lt_of_precedes hdate))
  have hyears : t.calendar.date.year.toNat = u.calendar.date.year.toNat →
      t.calendar.date.year = u.calendar.date.year := by
    have hlow := ht.1
    have hlow' := hu.1
    omega
  rw [literalNumbers, literalNumbers, List.cons_lt_cons_iff, List.cons_lt_cons_iff,
    List.cons_lt_cons_iff] at h
  rcases h with hyear | ⟨hyear, hmonth | ⟨hmonth, hday | ⟨hday, hclock⟩⟩⟩
  · exact hbefore (.inl (Int.lt_of_toNat_lt hyear))
  · exact hbefore (.inr ⟨hyears hyear, .inl hmonth⟩)
  · exact hbefore (.inr ⟨hyears hyear, .inr ⟨hmonth, hday⟩⟩)
  · have hdate := (Date.mk.injEq ..).mpr ⟨hyears hyear, hmonth, hday⟩
    exact cutToMicros_lt_of_clock_lt htime htime' hdate hclock

theorem literalNumbers_lt_iff (ht : t.HasPlainYear) (hu : u.HasPlainYear) (htime : t.OnClock)
    (htime' : u.OnClock) : t.literalNumbers < u.literalNumbers ↔ t.cutToMicros < u.cutToMicros := by
  refine ⟨cutToMicros_lt_of_literalNumbers_lt ht hu htime htime', fun hcuts => ?_⟩
  by_contra hnot
  by_cases hmore : u.literalNumbers < t.literalNumbers
  · exact lt_asymm hcuts (cutToMicros_lt_of_literalNumbers_lt hu ht htime' htime hmore)
  · -- Literals of the same numbers are the same, and denote one point in time.
    have hsame := List.le_antisymm (List.not_lt.mp hmore) (List.not_lt.mp hnot)
    have htexts : t.literal = u.literal := by
      rw [literal_eq_fields ht, literal_eq_fields hu, hsame]
    have hdenotes := denotes_literal hu htime'
    rw [← htexts] at hdenotes
    exact ne_of_lt hcuts ((denotes_literal ht htime).unique hdenotes)

/-- **Literals are in the order of the points in time cut to whole microseconds.** -/
theorem bytes_literal_lt_iff (ht : t.HasPlainYear) (hu : u.HasPlainYear) (htime : t.OnClock)
    (htime' : u.OnClock) :
    Text.bytes t.literal < Text.bytes u.literal ↔ t.cutToMicros < u.cutToMicros := by
  have hmarks : ∀ field ∈ literalLayout, field.2.toNat < 128 := by decide
  rw [literal_eq_fields ht, literal_eq_fields hu,
    Text.bytes_lt_bytes_iff (Text.fields_ascii hmarks _) (Text.fields_ascii hmarks _),
    Text.fields_lt_fields_iff (fits_literalNumbers ht) (fits_literalNumbers hu),
    literalNumbers_lt_iff ht hu htime htime']

theorem bytes_literal_le_iff (ht : t.HasPlainYear) (hu : u.HasPlainYear) (htime : t.OnClock)
    (htime' : u.OnClock) :
    Text.bytes t.literal ≤ Text.bytes u.literal ↔ t.cutToMicros ≤ u.cutToMicros := by
  rw [← List.not_lt, ← not_lt, bytes_literal_lt_iff hu ht htime' htime]

/-! ### Cutoffs -/

/-- **A literal is never later than its point in time**, where clocks have the point. Read as a time
of RFC 3339 it is the point with its fraction cut to whole microseconds, and nothing else: not
later, and less than a microsecond earlier. So what the database finds before the literal is from
before the point. Of two such points the one that is not later has the literal that is not later,
byte by byte. -/
theorem literal_never_later (ht : t.HasPlainYear) (htime : t.OnClock) :
    (∀ v, Rfc3339.Denotes t.literal v ↔ v = t.cutToMicros) ∧
      read? t.literal = some t.cutToMicros ∧
      t.cutToMicros ≤ t ∧ t.nanos < t.cutToMicros.nanos + 1000 ∧
      (∀ u : Timestamp, u.micros < t.cutToMicros.micros → u.nanos < t.nanos) ∧
      ∀ u : Timestamp, u.HasPlainYear → u.OnClock → t ≤ u →
        Text.bytes t.literal ≤ Text.bytes u.literal := by
  have hdenotes := denotes_literal ht htime
  refine ⟨fun v => ⟨fun hv => hv.unique hdenotes, fun hv => hv ▸ hdenotes⟩,
    Rfc3339.read?_of_denotes hdenotes, t.cutToMicros_le, t.nanos_lt_cutToMicros,
    fun u hu => nanos_lt_of_micros_lt hu, ?_⟩
  intro u hu htime' hle
  exact (bytes_literal_le_iff ht hu htime htime').mpr (cutToMicros_mono hle)

/-- The last nanosecond before 1970 is cut and not rounded, and so is one of a leap second; the
second 60 of its literal comes before the next minute. -/
theorem literal_never_later_leapSecond :
    let old : Timestamp := ⟨-1, 999999999, by decide⟩
    let leap : Timestamp := ⟨1483228799, 1999999999, by decide⟩
    let next : Timestamp := ⟨1483228800, 0, by decide⟩
    old.literal = "1969-12-31T23:59:59.999999Z".toList ∧
      read? old.literal = some ⟨-1, 999999000, by decide⟩ ∧
      leap.literal = "2016-12-31T23:59:60.999999Z".toList ∧
      read? leap.literal = some ⟨1483228799, 1999999000, by decide⟩ ∧
      Text.bytes old.literal ≤ Text.bytes leap.literal ∧
      Text.bytes leap.literal ≤ Text.bytes next.literal := by
  intro old leap next
  obtain ⟨-, hold, -, -, -, hafterOld⟩ := @literal_never_later old (by decide) (by decide)
  obtain ⟨-, hleap, -, -, -, hafterLeap⟩ := @literal_never_later leap (by decide) (by decide)
  exact ⟨by decide, hold.trans (by decide), by decide, hleap.trans (by decide),
    hafterOld leap (by decide) (by decide) (by decide),
    hafterLeap next (by decide) (by decide) (by decide)⟩

end MarketSignals.Timestamp
