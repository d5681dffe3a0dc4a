import MarketSignals.Time.Timestamp

/-!
# Spans of time

A length of time in nanoseconds, and its text in messages: the largest unit with a whole part that
is not zero, and the exact fraction without trailing zeros.
-/

namespace MarketSignals

/-- A length of time. -/
structure Span where
  /-- The nanoseconds. -/
  nanos : Nat
deriving DecidableEq

namespace Span

instance : Inhabited Span :=
  ⟨⟨0⟩⟩

/-- A number of whole seconds. -/
def ofSeconds (seconds : Nat) : Span :=
  ⟨seconds * nanosPerSecond⟩

/-- A number of whole milliseconds. -/
def ofMillis (millis : Nat) : Span :=
  ⟨millis * 1000000⟩

/-- The whole seconds in a span. -/
def seconds (s : Span) : Nat :=
  s.nanos / nanosPerSecond

/-- A number of units, of `places` decimal places each, with its fraction. -/
def inUnits (nanos places : Nat) : List Char :=
  let fraction := Text.padded places (nanos % Nat.pow 10 places)
  let kept := (fraction.reverse.dropWhile (· == '0')).reverse
  Text.digits (nanos / Nat.pow 10 places) ++ if kept.isEmpty || places = 0 then [] else '.' :: kept

/-- The text of a span. -/
def written (s : Span) : List Char :=
  if nanosPerSecond ≤ s.nanos then inUnits s.nanos 9 ++ ['s']
  else if 1000000 ≤ s.nanos then inUnits s.nanos 6 ++ ['m', 's']
  else if 1000 ≤ s.nanos then inUnits s.nanos 3 ++ ['µ', 's']
  else inUnits s.nanos 0 ++ ['n', 's']

end Span

end MarketSignals
