import MarketSignals.Indicator.Series
import MarketSignals.Indicator.Readings

/-!
# Trend, volatility and volume

Averages of the close, the bands around them, the mean range and the balance of volume. Where the
history is too short for an average, the latest close stands in.
-/

namespace MarketSignals.Indicator

open Series

/-- The newest close; zero without bars. -/
def latestClose (bars : List Bar) : Float :=
  (bars.getLast?.map Bar.close).getD 0

/-- The mean of the last `period` closes. -/
def sma (bars : List Bar) (period : Nat) : Float :=
  (sma? (bars.map Bar.close) period).getD (latestClose bars)

/-- The exponential average of the closes. -/
def ema (bars : List Bar) (period : Nat) : Float :=
  (ema? (bars.map Bar.close) period).getD (latestClose bars)

/-- Bands at a number of deviations around the mean of the last `period` closes. -/
def bollinger (bars : List Bar) (period : Nat) (deviations : Float) : Bands :=
  let closes := bars.map Bar.close
  match sma? closes period, deviation? closes period with
  | some middle, some deviation =>
    ⟨middle + deviations * deviation, middle, middle - deviations * deviation⟩
  | _, _ => ⟨latestClose bars, latestClose bars, latestClose bars⟩

/-- The range of each bar but the first, the former close included. -/
def trueRanges : List Bar → List Float
  | former :: bar :: rest => trueRange bar.high bar.low former.close :: trueRanges (bar :: rest)
  | _ => []

/-- The mean of the last `period` ranges, or of all where there are fewer. -/
def atr (bars : List Bar) (period : Nat) : Float :=
  mean (trailing period (trueRanges bars))

/-- The balance of volume after each of the bars that follow a bar. -/
def obvFrom (former : Bar) (balance : Float) : List Bar → List Float
  | [] => []
  | bar :: rest =>
    let next :=
      if former.close < bar.close then balance + bar.volume.toFloat
      else if bar.close < former.close then balance - bar.volume.toFloat
      else balance
    next :: obvFrom bar next rest

/-- The balance of volume after each bar: the volume of a bar that closes higher is added, that of
one that closes lower is taken away. The first bar counts nothing. -/
def obvSeries : List Bar → List Float
  | [] => []
  | first :: rest => 0 :: obvFrom first 0 rest

/-- The balance of volume after the last bar. -/
def obv (bars : List Bar) : Float :=
  (obvSeries bars).getLast?.getD 0

end MarketSignals.Indicator
