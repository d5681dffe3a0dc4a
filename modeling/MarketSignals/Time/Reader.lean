import MarketSignals.Text.Blank
import MarketSignals.Time.Written

/-!
# Reading written times

The reader of times is wider than their writers: blanks may stand around the parts, a part may
have one digit, a `t` or a space may stand between date and time of day, the fraction may have any
number of digits, and the offset from UTC may be any below a day. Only times that exist are read.
-/

namespace MarketSignals

/-- A reader of the front of a text: what it read, and the rest. -/
abbrev FrontReader (α : Type) : Type :=
  List Char → Option (α × List Char)

namespace Timestamp

/-- One digit at least and `most` at most, and the rest. -/
def readNumber (most : Nat) : FrontReader Nat := fun text =>
  let digits := (text.take most).takeWhile Char.isDigit
  if digits.isEmpty then none else some (Text.value digits, text.drop digits.length)

/-- A number of any length. -/
def readLongNumber : FrontReader Nat := fun text =>
  readNumber text.length text

/-- A year: up to four digits, or a sign and any number of digits. -/
def readYear : FrontReader Int := fun text =>
  match Text.trimStart text with
  | '-' :: rest => (readLongNumber rest).map fun (n, rest) => (-(n : Int), rest)
  | '+' :: rest => (readLongNumber rest).map fun (n, rest) => ((n : Int), rest)
  | text => (readNumber 4 text).map fun (n, rest) => ((n : Int), rest)

/-- A number of one or two digits behind blanks. -/
def readPart : FrontReader Nat := fun text =>
  readNumber 2 (Text.trimStart text)

/-- The text behind a given character, blanks before it allowed. -/
def readMark (mark : Char) (text : List Char) : Option (List Char) :=
  match Text.trimStart text with
  | c :: rest => if c = mark then some rest else none
  | [] => none

/-- A fraction of a second in nanoseconds, where there is one; digits from the tenth on are
dropped. -/
def readFraction : FrontReader Nat := fun text =>
  match text with
  | '.' :: rest =>
    let digits := rest.takeWhile Char.isDigit
    let kept := digits.take 9
    if digits.isEmpty then none
    else some (Text.value kept * Nat.pow 10 (9 - kept.length), rest.drop digits.length)
  | _ => some (0, text)

/-- Two digits of an offset. -/
def readPair : FrontReader Nat := fun text =>
  match text with
  | a :: b :: rest => if a.isDigit && b.isDigit then some (Text.value [a, b], rest) else none
  | _ => none

/-- Hours and minutes of an offset in seconds; colons and blanks may stand between them. -/
def readOffsetSize : FrontReader Nat := fun text => do
  let (hours, rest) ← readPair text
  let (minutes, rest) ← readPair (rest.dropWhile fun c => c == ':' || Text.isBlank c)
  if minutes < 60 then some (hours * 3600 + minutes * 60, rest) else none

/-- The offset from UTC in seconds: the letters `UTC` or `Z` in either case, or a sign with hours
and minutes. -/
def readOffset : FrontReader Int := fun text =>
  match text with
  | [] => none
  | sign :: rest =>
    if Text.upperCase (text.take 3) == ['U', 'T', 'C'] then some (0, text.drop 3)
    else if sign == 'Z' || sign == 'z' then some (0, rest)
    else if sign == '+' then (readOffsetSize rest).map fun (n, rest) => ((n : Int), rest)
    else if sign == '-' || sign == '\u2212' then
      (readOffsetSize rest).map fun (n, rest) => (-(n : Int), rest)
    else none

/-- Year, month and day. -/
def readDate : FrontReader Date := fun text => do
  let (year, rest) ← readYear text
  let rest ← readMark '-' rest
  let (month, rest) ← readPart rest
  let rest ← readMark '-' rest
  let (day, rest) ← readPart rest
  some (⟨year, month, day⟩, rest)

/-- Hour, minute, second and nanosecond. -/
def readClock : FrontReader (Nat × Nat × Nat × Nat) := fun text => do
  let (hour, rest) ← readPart text
  let rest ← readMark ':' rest
  let (minute, rest) ← readPart rest
  let rest ← readMark ':' rest
  let (second, rest) ← readPart rest
  let (nano, rest) ← readFraction rest
  some ((hour, minute, second, nano), rest)

/-- The point in time that date, time of day and offset name, if they exist. -/
def ofParts? (date : Date) (clock : Nat × Nat × Nat × Nat) (offset : Int) : Option Timestamp :=
  let (hour, minute, second, nano) := clock
  if date.isValid ∧ hour < 24 ∧ minute < 60 ∧ second ≤ 60 ∧ offset.natAbs < secondsPerDay then
    let leap := second = 60
    let ofDay : Nat := hour * 3600 + minute * 60 + if leap then 59 else second
    let nano := if leap then nano + nanosPerSecond else nano
    let here := date.toDays * secondsPerDay + ofDay
    (of? here nano).bind fun _ => of? (here - offset) nano
  else none

/-- The point in time that a text denotes. -/
def read? (text : List Char) : Option Timestamp := do
  let (date, rest) ← readDate text
  match rest with
  | mark :: rest =>
    if mark == 'T' || mark == 't' || mark == ' ' then
      let (clock, rest) ← readClock rest
      let (offset, rest) ← readOffset (Text.trimStart rest)
      if (Text.trimStart rest).isEmpty then ofParts? date clock offset else none
    else none
  | [] => none

end Timestamp

end MarketSignals
