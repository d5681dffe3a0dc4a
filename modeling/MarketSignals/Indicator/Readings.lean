import MarketSignals.Price

/-!
# Readings

The values that the indicators of one instrument take together, and the snapshot that carries them
through the pipeline.
-/

namespace MarketSignals

/-- Convergence and divergence of two exponential averages. -/
structure Macd where
  /-- The fast average less the slow one. -/
  line : Float
  /-- The average of the line. -/
  signal : Float
  /-- The line less its signal. -/
  histogram : Float
deriving DecidableEq

/-- Bands around an average. -/
structure Bands where
  /-- The band above. -/
  upper : Float
  /-- The average. -/
  middle : Float
  /-- The band below. -/
  lower : Float
deriving DecidableEq

/-- The distance of the bands. -/
def Bands.width (b : Bands) : Float :=
  b.upper - b.lower

/-- The place of the close in the recent range. -/
structure Stochastic where
  /-- The place of the last close, in per cent. -/
  k : Float
  /-- The mean of the recent places. -/
  d : Float
deriving DecidableEq

/-- The value of every indicator for one series of bars. -/
structure Readings where
  /-- Relative strength. -/
  rsi : Float
  /-- Convergence and divergence. -/
  macd : Macd
  /-- The mean close of the short period. -/
  smaShort : Float
  /-- The mean close of the long period. -/
  smaLong : Float
  /-- The exponential average of the fast period. -/
  emaFast : Float
  /-- The exponential average of the slow period. -/
  emaSlow : Float
  /-- The bands around the mean close. -/
  bollinger : Bands
  /-- The place in the recent range. -/
  stochastic : Stochastic
  /-- The place in the recent range, counted down from its top. -/
  williamsR : Float
  /-- The mean range. -/
  atr : Float
  /-- The balance of volume. -/
  obv : Float
deriving DecidableEq

/-- Each single value with its name, in the order of the names. -/
def Readings.flat (r : Readings) : List (String × Float) :=
  [("atr", r.atr), ("bollinger_lower", r.bollinger.lower), ("bollinger_mid", r.bollinger.middle),
    ("bollinger_upper", r.bollinger.upper), ("ema_12", r.emaFast), ("ema_26", r.emaSlow),
    ("macd", r.macd.line), ("macd_histogram", r.macd.histogram), ("macd_signal", r.macd.signal),
    ("obv", r.obv), ("rsi", r.rsi), ("sma_20", r.smaShort), ("sma_50", r.smaLong),
    ("stochastic_d", r.stochastic.d), ("stochastic_k", r.stochastic.k),
    ("williams_r", r.williamsR)]

/-- The readings of an instrument at one time. -/
structure Snapshot where
  /-- The instrument's symbol. -/
  symbol : String
  /-- The readings. -/
  readings : Readings
  /-- How many bars they were taken from. -/
  dataPoints : Nat
  /-- The time of the newest bar. -/
  computedAt : Timestamp
deriving DecidableEq

end MarketSignals
