import MarketSignals.Time.Timestamp

/-!
# Written times

The texts of a point in time: in documents, in the metadata of a request, in messages and in
statements for the database. All write the calendar date and the time of day; they differ in what
stands between them, in the places of the fraction and in how UTC is spelled. A leap second is
written as one second more than the second it lies behind, so as 60 behind a second 59.
-/

namespace MarketSignals

/-- A point in time by calendar date and time of day. -/
structure CalendarTime where
  /-- The calendar date. -/
  date : Date
  /-- The hour, from 0. -/
  hour : Nat
  /-- The minute, from 0. -/
  minute : Nat
  /-- The second, from 0; one more in a leap second, so 60 at most. -/
  second : Nat
  /-- The nanoseconds since the start of the second. -/
  nano : Nat
deriving DecidableEq

/-- Date and time of day of a point in time. -/
def Timestamp.calendar (t : Timestamp) : CalendarTime :=
  let ofDay := (t.second % secondsPerDay).toNat
  let leap := nanosPerSecond ≤ t.nano
  { date := Date.ofDays (t.second / secondsPerDay)
    hour := ofDay / 3600
    minute := ofDay / 60 % 60
    second := ofDay % 60 + if leap then 1 else 0
    nano := if leap then t.nano - nanosPerSecond else t.nano }

namespace CalendarTime

/-- A year in four digits; outside 0 to 9999 with its sign and at least four digits. -/
def yearText (year : Int) : List Char :=
  if 0 ≤ year ∧ year ≤ 9999 then Text.padded 4 year.toNat
  else (if year < 0 then '-' else '+') :: Text.padded 4 year.natAbs

/-- Year, month and day, with hyphens. -/
def dateText (c : CalendarTime) : List Char :=
  yearText c.date.year ++ '-' :: Text.padded 2 c.date.month ++ '-' :: Text.padded 2 c.date.day

/-- Hour, minute and second, with colons. -/
def clockText (c : CalendarTime) : List Char :=
  Text.padded 2 c.hour ++ ':' :: Text.padded 2 c.minute ++ ':' :: Text.padded 2 c.second

/-- The fraction of the second in 0, 3, 6 or 9 digits, the fewest that are exact. -/
def fractionText (c : CalendarTime) : List Char :=
  if c.nano = 0 then []
  else if c.nano % 1000000 = 0 then '.' :: Text.padded 3 (c.nano / 1000000)
  else if c.nano % 1000 = 0 then '.' :: Text.padded 6 (c.nano / 1000)
  else '.' :: Text.padded 9 c.nano

end CalendarTime

namespace Timestamp

/-- Date and time of day with a `T` between them. -/
def joined (t : Timestamp) : List Char :=
  let c := t.calendar
  c.dateText ++ 'T' :: c.clockText ++ c.fractionText

/-- A point in time as documents hold it: UTC is a `Z`. -/
def written (t : Timestamp) : List Char :=
  t.joined ++ ['Z']

/-- A point in time with UTC as an offset of zero. -/
def withOffset (t : Timestamp) : List Char :=
  t.joined ++ "+00:00".toList

/-- A point in time in a message. -/
def inMessage (t : Timestamp) : List Char :=
  let c := t.calendar
  c.dateText ++ ' ' :: c.clockText ++ c.fractionText ++ " UTC".toList

/-- A point in time as a literal of the database, cut to whole microseconds. -/
def literal (t : Timestamp) : List Char :=
  let c := t.calendar
  c.dateText ++ 'T' :: c.clockText ++ '.' :: Text.padded 6 (c.nano / 1000) ++ ['Z']

end Timestamp

end MarketSignals
