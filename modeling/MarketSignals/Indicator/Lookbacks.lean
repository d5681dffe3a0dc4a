import MarketSignals.Text.Blank

/-!
# Lookbacks

How far each indicator looks back, and how many bars that takes at least.

Periods are machine words, and so has to be what is added up of them. Where a sum is none, no number
of bars is required: whatever asks for one breaks off without an answer.
-/

namespace MarketSignals

/-- How the signal line follows the line of the averages' difference. -/
inductive SignalLine where
  /-- An exponential average of the line. -/
  | average
  /-- The line itself, scaled. -/
  | scaled
deriving DecidableEq

/-- The signal line that a name stands for, in any ASCII case and with blanks around it. -/
def SignalLine.ofText (text : String) : Except String SignalLine :=
  match String.ofList (Text.lowerCase (Text.trim text.toList)) with
  | "ema" => .ok .average
  | "scaled" => .ok .scaled
  | other => .error ("unknown MACD signal line method '" ++ other ++ "'")

/-- The periods of all indicators, each a machine word. -/
structure Lookbacks where
  /-- Differences in the relative strength. -/
  rsi : Nat := 14
  /-- Closes in the short mean. -/
  smaShort : Nat := 20
  /-- Closes in the long mean. -/
  smaLong : Nat := 50
  /-- The period of the fast exponential average. -/
  emaFast : Nat := 12
  /-- The period of the slow exponential average. -/
  emaSlow : Nat := 26
  /-- The period of the signal line. -/
  macdSignal : Nat := 9
  /-- How the signal line is derived. -/
  signalLine : SignalLine := .average
  /-- Closes between the bands. -/
  bollinger : Nat := 20
  /-- Deviations from the middle to a band. -/
  bollingerDeviations : Float := 2
  /-- Bars in a recent range. -/
  stochasticK : Nat := 14
  /-- Recent ranges that are averaged. -/
  stochasticD : Nat := 3
  /-- Bars in the range of Williams %R. -/
  williams : Nat := 14
  /-- Ranges in the mean range. -/
  atr : Nat := 14
deriving DecidableEq

namespace Lookbacks

/-- The number of values of a machine word. -/
def wordValues : Nat := Nat.pow 2 64

/-- The sum of two machine words, where it is one. -/
def wordSum? (a b : Nat) : Option Nat :=
  if a + b < wordValues then some (a + b) else none

/-- The least number of bars that indicators are computed from. -/
def minBars : Nat := 50

/-- The number of bars that every indicator needs for its full period. -/
def requiredBars (l : Lookbacks) : Nat :=
  [l.rsi + 1, l.smaShort, l.smaLong, l.emaFast, l.emaSlow, l.bollinger,
    l.stochasticK + l.stochasticD - 1, l.williams, l.atr + 1].foldl max minBars

/-- The same number with every sum taken in machine words. -/
def requiredBars? (l : Lookbacks) : Option Nat := do
  let differences ← wordSum? l.rsi 1
  let places ← wordSum? l.stochasticK l.stochasticD
  let ranges ← wordSum? l.atr 1
  some ([differences, l.smaShort, l.smaLong, l.emaFast, l.emaSlow, l.bollinger, places - 1,
    l.williams, ranges].foldl max minBars)

end Lookbacks

end MarketSignals
