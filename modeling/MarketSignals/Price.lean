import MarketSignals.Time.Timestamp

/-!
# Prices and instruments

The observations that enter the pipeline, and the instruments they belong to.
-/

namespace MarketSignals

/-- One observation of an instrument: the prices of an interval and the volume traded in it. -/
structure Bar where
  /-- The instrument's symbol. -/
  symbol : String
  /-- The market the instrument is traded on. -/
  market : String
  /-- The first price. -/
  opening : Float
  /-- The highest price. -/
  high : Float
  /-- The lowest price. -/
  low : Float
  /-- The last price. -/
  close : Float
  /-- The number of units traded. -/
  volume : UInt64
  /-- The value traded. -/
  tradeAmount : UInt64
  /-- When the interval was observed; an instrument has one bar for a time. -/
  time : Timestamp
deriving DecidableEq

/-- Whether all four prices of a bar are numbers. -/
def Bar.isFinite (bar : Bar) : Bool :=
  bar.opening.isFinite && bar.high.isFinite && bar.low.isFinite && bar.close.isFinite

/-- An instrument that prices are recorded for. -/
structure Instrument where
  /-- The symbol, by which everything about the instrument is found. -/
  symbol : String
  /-- The market it is traded on. -/
  market : String
  /-- A name for people, often empty. -/
  name : String := ""
  /-- Whether its indicators are refreshed from time to time. -/
  active : Bool := true
deriving DecidableEq

/-- Keeps the first bar of each time in a series ordered by time. -/
def collapseByTime : List Bar → List Bar
  | [] => []
  | bar :: rest => bar :: go bar rest
where
  /-- Continues behind the last bar kept. -/
  go (last : Bar) : List Bar → List Bar
    | [] => []
    | bar :: rest => if bar.time = last.time then go last rest else bar :: go bar rest

end MarketSignals
