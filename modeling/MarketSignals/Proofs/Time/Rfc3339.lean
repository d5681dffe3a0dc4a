import MarketSignals.Proofs.Time.DateOrder
import MarketSignals.Proofs.Time.Reading

/-!
# Times in RFC 3339

What the texts of RFC 3339 denote: a date of four digits for the year and two for the month and the
day, a time of day with a fraction of any number of digits, and an offset from UTC. A second of 60
is a leap second. The reader of times is wider than this format; here it is seen that it reads all
of it, and reads it as what it denotes.

## Main results

* `Rfc3339.read?_of_denotes`: every text of the format is read as what it denotes.
* `Rfc3339.Denotes.unique`: a text denotes one point in time at most.
-/

namespace MarketSignals

namespace Rfc3339

/-! ### The format -/

/-- Whether a text is a fraction of a second, of so many nanoseconds; what is left of a nanosecond
is cut. -/
inductive IsFraction : List Char → ℕ → Prop
  | whole : IsFraction [] 0
  | digits {ds : List Char} (hds : AreDigits ds) :
      IsFraction ('.' :: ds) (Text.value ds * nanosPerSecond / 10 ^ ds.length)

/-- Whether a text is an offset from UTC, of so many seconds. -/
inductive IsOffset : List Char → Int → Prop
  | utc {letter : Char} (hletter : letter = 'Z' ∨ letter = 'z') : IsOffset [letter] 0
  | east {hours minutes : ℕ} (hhours : hours < 24) (hminutes : minutes < 60) :
      IsOffset ('+' :: (Text.padded 2 hours ++ ':' :: Text.padded 2 minutes))
        (hours * 3600 + minutes * 60 : ℕ)
  | west {hours minutes : ℕ} (hhours : hours < 24) (hminutes : minutes < 60) :
      IsOffset ('-' :: (Text.padded 2 hours ++ ':' :: Text.padded 2 minutes))
        (-(hours * 3600 + minutes * 60 : ℕ))

/-- Whether a text of the format denotes a point in time. The second 60 is that before it with more
than a second of nanoseconds. -/
inductive Denotes : List Char → Timestamp → Prop
  | intro {date : Date} {mark : Char} {hour minute second nano : ℕ} {fraction offset : List Char}
      {shift : Int} {t : Timestamp}
      (hyear : 0 ≤ date.year ∧ date.year ≤ 9999) (hdate : date.isValid = true)
      (hmark : mark = 'T' ∨ mark = 't')
      (hclock : hour < 24 ∧ minute < 60 ∧ second ≤ 60)
      (hfraction : IsFraction fraction nano) (hoffset : IsOffset offset shift)
      (hsecond : t.second + shift = date.toDays * secondsPerDay +
        (hour * 3600 + minute * 60 + if second = 60 then 59 else second : ℕ))
      (hnano : t.nano = if second = 60 then nano + nanosPerSecond else nano) :
      Denotes (Text.padded 4 date.year.toNat ++ '-' :: Text.padded 2 date.month ++
        '-' :: Text.padded 2 date.day ++ mark :: Text.padded 2 hour ++
        ':' :: Text.padded 2 minute ++ ':' :: Text.padded 2 second ++ fraction ++ offset) t

variable {text rest : List Char} {nano : ℕ} {shift : Int} {t : Timestamp}

/-! ### Fractions and offsets -/

/-- The first nine digits, filled up with zeros, denote the nanoseconds of all of them. -/
theorem nanos_take {ds : List Char} (hds : ∀ c ∈ ds, c.isDigit = true) :
    Text.value (ds.take 9) * 10 ^ (9 - (ds.take 9).length) =
      Text.value ds * nanosPerSecond / 10 ^ ds.length := by
  rw [List.length_take]
  rcases Nat.le_total ds.length 9 with hshort | hlong
  · have hnine : nanosPerSecond = 10 ^ (9 - ds.length) * 10 ^ ds.length := by
      rw [← pow_add, Nat.sub_add_cancel hshort]
      rfl
    rw [List.take_of_length_le hshort, min_eq_right hshort, hnine, ← Nat.mul_assoc,
      Nat.mul_div_cancel _ (by positivity)]
  · have hsplit : 10 ^ ds.length = 10 ^ (ds.length - 9) * nanosPerSecond := by
      rw [← Nat.sub_add_cancel hlong, pow_add, Nat.add_sub_cancel]
      rfl
    rw [Text.value_take hds, min_eq_left hlong, Nat.sub_self, pow_zero, Nat.mul_one, hsplit,
      Nat.mul_div_mul_right _ _ (by decide)]

theorem IsFraction.read (h : IsFraction text nano)
    (hrest : ∀ c ∈ rest.head?, c.isDigit = false ∧ c ≠ '.') :
    Timestamp.readFraction (text ++ rest) = some (nano, rest) := by
  cases h with
  | whole =>
      cases rest with
      | nil => rfl
      | cons c rest =>
          unfold Timestamp.readFraction
          split
          next hdot => exact absurd (List.cons.inj hdot).1 (hrest c rfl).2
          next => rfl
  | digits hds =>
      rw [List.cons_append, Timestamp.readFraction_append hds fun c hc => (hrest c hc).1,
        nanos_take hds.2]

/-- Two digits behind each other are read. -/
theorem readPair_padded {n : ℕ} (hn : n < 100) (rest : List Char) :
    Timestamp.readPair (Text.padded 2 n ++ rest) = some (n, rest) := by
  have hvalue := Text.value_padded 2 n
  have hdigits := (Text.areDigits_padded 2 n).2
  obtain ⟨a, b, htwo⟩ := List.length_eq_two.mp (Text.length_padded_of_lt (by norm_num) hn)
  rw [htwo] at hvalue hdigits ⊢
  have ha := hdigits a List.mem_cons_self
  have hb := hdigits b (List.mem_cons_of_mem _ List.mem_cons_self)
  simp [Timestamp.readPair, ha, hb, hvalue]

/-- Hours and minutes with a colon between them are read. -/
theorem readOffsetSize_padded {hours minutes : ℕ} (hhours : hours < 24) (hminutes : minutes < 60) :
    Timestamp.readOffsetSize (Text.padded 2 hours ++ ':' :: Text.padded 2 minutes) =
      some (hours * 3600 + minutes * 60, []) := by
  have hfirst := readPair_padded (by omega : hours < 100) (':' :: Text.padded 2 minutes)
  have hlast := readPair_padded (by omega : minutes < 100) []
  rw [List.append_nil] at hlast
  have hcolon : (':' :: Text.padded 2 minutes).dropWhile (fun c => c == ':' || Text.isBlank c) =
      Text.padded 2 minutes := by
    obtain ⟨c, tail, hstart, hdigit⟩ := (Text.areDigits_padded 2 minutes).exists_cons
    have hnotColon : (c == ':') = false := beq_false_of_ne (ne_of_isDigit hdigit rfl)
    have hnotBlank := Timestamp.isBlank_of_isDigit hdigit
    rw [hstart, List.dropWhile_cons_of_pos (by decide),
      List.dropWhile_cons_of_neg (by simp [hnotColon, hnotBlank])]
  simp [Timestamp.readOffsetSize, hfirst, hcolon, hlast, hminutes]

theorem IsOffset.read (h : IsOffset text shift) :
    Timestamp.readOffset (Text.trimStart text) = some (shift, []) := by
  cases h with
  | utc hletter => rcases hletter with rfl | rfl <;> decide
  | east hhours hminutes =>
      rw [Timestamp.trimStart_cons rfl]
      simp [Timestamp.readOffset, Text.upperCase, readOffsetSize_padded hhours hminutes]
  | west hhours hminutes =>
      rw [Timestamp.trimStart_cons rfl]
      simp [Timestamp.readOffset, Text.upperCase, readOffsetSize_padded hhours hminutes]

/-- An offset starts with a letter or a sign. -/
theorem IsOffset.head? (h : IsOffset text shift) :
    ∀ c ∈ text.head?, c.isDigit = false ∧ c ≠ '.' := by
  cases h with
  | utc hletter =>
      intro c hc
      obtain rfl := Option.some.inj hc
      rcases hletter with rfl | rfl <;> decide
  | east => exact fun c hc => Option.some.inj hc ▸ by decide
  | west => exact fun c hc => Option.some.inj hc ▸ by decide

/-- An offset is less than a day. -/
theorem IsOffset.lt_day (h : IsOffset text shift) : shift.natAbs < secondsPerDay := by
  unfold secondsPerDay
  cases h with
  | utc => decide
  | east => omega
  | west => omega

/-! ### Points in time -/

/-- The second that a text names before its offset is taken off is in range. -/
theorem isPoint_here {date : Date} {hour minute second : ℕ}
    (hyear : 0 ≤ date.year ∧ date.year ≤ 9999) (hdate : date.isValid = true)
    (hclock : hour < 24 ∧ minute < 60 ∧ second ≤ 60)
    (hsecond : t.second + shift = date.toDays * secondsPerDay +
      (hour * 3600 + minute * 60 + if second = 60 then 59 else second : ℕ)) :
    IsPoint (t.second + shift) t.nano := by
  obtain ⟨hlow, hhigh⟩ := Date.toDays_bounds hdate hyear.1 hyear.2
  have hfirst : firstSecond ≤ Date.toDays ⟨0, 1, 1⟩ * secondsPerDay := by decide
  have hlast : Date.toDays ⟨10000, 1, 1⟩ * secondsPerDay ≤ lastSecond := by decide
  have hday : hour * 3600 + minute * 60 + (if second = 60 then 59 else second) < secondsPerDay := by
    unfold secondsPerDay
    split <;> omega
  unfold secondsPerDay at hfirst hlast hsecond hday
  exact ⟨by omega, by omega, t.nano_lt⟩

/-- **Every text of the format is read as what it denotes.** -/
theorem read?_of_denotes (h : Denotes text t) : Timestamp.read? text = some t := by
  obtain @⟨date, mark, hour, minute, second, nano, fraction, offset, shift, _, hyear, hdate, hmark,
    ⟨hhour, hminute, hsixty⟩, hfraction, hoffset, hsecond, hnano⟩ := h
  let c : CalendarTime := ⟨date, hour, minute, second, nano⟩
  have htext : Text.padded 4 date.year.toNat ++ '-' :: Text.padded 2 date.month ++
      '-' :: Text.padded 2 date.day ++ mark :: Text.padded 2 hour ++ ':' :: Text.padded 2 minute ++
        ':' :: Text.padded 2 second ++ fraction ++ offset =
      c.dateText ++ mark :: (c.clockText ++ (fraction ++ offset)) := by
    simp [c, CalendarTime.dateText, CalendarTime.clockText, CalendarTime.yearText, hyear]
  obtain ⟨hmonth, hday⟩ := Date.lt_of_isValid hdate
  have hclock : Timestamp.readClock (c.clockText ++ (fraction ++ offset)) =
      some ((hour, minute, second, nano), offset) := by
    have hbounds : c.hour < 100 ∧ c.minute < 100 ∧ c.second < 100 := by
      show hour < 100 ∧ minute < 100 ∧ second < 100
      omega
    rw [Timestamp.readClock_append hbounds.1 hbounds.2.1 hbounds.2.2, hfraction.read hoffset.head?]
    rfl
  have hmarked : (mark == 'T' || mark == 't' || mark == ' ') = true := by
    rcases hmark with rfl | rfl <;> rfl
  have hpoint := isPoint_here hyear hdate ⟨hhour, hminute, hsixty⟩ hsecond
  rw [htext, Timestamp.read?, Timestamp.readDate_dateText hmonth hday]
  simp only [Option.bind_eq_bind, Option.bind_some, hmarked, if_true, hclock, hoffset.read]
  exact Timestamp.ofParts?_eq_some hdate hhour hminute hsixty hoffset.lt_day hsecond hnano hpoint

/-- A text of the format denotes one point in time. -/
theorem Denotes.unique {a b : Timestamp} (ha : Denotes text a) (hb : Denotes text b) : a = b :=
  Option.some.inj ((read?_of_denotes ha).symm.trans (read?_of_denotes hb))

end Rfc3339

end MarketSignals
