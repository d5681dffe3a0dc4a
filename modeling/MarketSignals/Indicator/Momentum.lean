import MarketSignals.Indicator.Series
import MarketSignals.Indicator.Lookbacks
import MarketSignals.Indicator.Readings

/-!
# Momentum

Relative strength, the convergence and divergence of averages, the stochastic oscillator and
Williams %R. Each takes a neutral value where the history is too short or did not move.
-/

namespace MarketSignals.Indicator

open Series

/-! ### Relative strength -/

/-- Relative strength where nothing moved. -/
def neutralRsi : Float := 50

/-- The differences of neighbouring closes. -/
def closeDeltas : List Bar → List Float
  | former :: bar :: rest => (bar.close - former.close) :: closeDeltas (bar :: rest)
  | _ => []

/-- The mean of the gains among differences, the others counted as zero. -/
def averageGain (deltas : List Float) (period : Nat) : Float :=
  sum (deltas.filter fun d => 0 < d) / Float.ofNat period

/-- The mean size of the losses among differences, the others counted as zero. -/
def averageLoss (deltas : List Float) (period : Nat) : Float :=
  sum ((deltas.filter fun d => d < 0).map fun d => -d) / Float.ofNat period

/-- Relative strength of a mean gain and a mean loss. -/
def rsiOf (gain loss : Float) : Float :=
  if loss == 0 then if gain == 0 then neutralRsi else 100
  else clamp (100 - 100 / (1 + gain / loss)) 0 100

/-- Relative strength over the last `period` differences. -/
def rsi (bars : List Bar) (period : Nat) : Float :=
  if period = 0 ∨ bars.length < period + 1 then neutralRsi
  else
    let recent := trailing period (closeDeltas bars)
    rsiOf (averageGain recent period) (averageLoss recent period)

/-! ### Convergence and divergence -/

/-- The scale of a signal line that follows its line directly. -/
def scaledSignalFactor : Float := 0.8

/-- The difference of two exponential averages of a series, entry by entry. -/
def macdSeries (closes : List Float) (fast slow : Nat) : List Float :=
  List.zipWith (· - ·) (emaSeries closes fast) (emaSeries closes slow)

/-- The difference of the averages, its signal line and their difference. -/
def macd (bars : List Bar) (fast slow signal : Nat) (method : SignalLine) : Macd :=
  if bars.length < slow then ⟨0, 0, 0⟩
  else
    let series := macdSeries (bars.map Bar.close) fast slow
    let line := series.getLast?.getD 0
    let signal := match method with
      | .average => (emaSeries series signal).getLast?.getD line
      | .scaled => line * scaledSignalFactor
    ⟨line, signal, line - signal⟩

/-! ### The place in the recent range -/

/-- The place of the close in a range that did not move. -/
def neutralStochastic : Float := 50

/-- The place of the last close between the lowest and the highest price, in per cent. -/
def percentK (window : List Bar) : Float :=
  match max? (window.map Bar.high), min? (window.map Bar.low), window.getLast? with
  | some highest, some lowest, some last =>
    let range := highest - lowest
    if range == 0 then neutralStochastic else (last.close - lowest) / range * 100
  | _, _, _ => neutralStochastic

/-- The bars of a period that ends `age` bars before the newest. -/
def earlierWindow (bars : List Bar) (period age : Nat) : List Bar :=
  trailing period (bars.take (bars.length - age))

/-- The places of the close in the last ranges of `k` bars, the newest first: `d` of them, at least
one, and no more than there are. -/
def percentKs (bars : List Bar) (k d : Nat) : List Float :=
  (List.range (min (max d 1) (bars.length - k + 1))).map fun age =>
    percentK (earlierWindow bars k age)

/-- The place of the close in the last `k` bars, and the mean of the last `d` such places. -/
def stochastic (bars : List Bar) (k d : Nat) : Stochastic :=
  if k = 0 ∨ bars.length < k then ⟨neutralStochastic, neutralStochastic⟩
  else
    let places := percentKs bars k d
    ⟨places.headD neutralStochastic, mean places⟩

/-- The place of the close, from the top, in a range that did not move. -/
def neutralWilliamsR : Float := -50

/-- The place of the last close below the highest price, in per cent of the range. -/
def percentR (window : List Bar) : Float :=
  match max? (window.map Bar.high), min? (window.map Bar.low), window.getLast? with
  | some highest, some lowest, some last =>
    let range := highest - lowest
    if range == 0 then neutralWilliamsR else (highest - last.close) / range * -100
  | _, _, _ => neutralWilliamsR

/-- The place of the close below the top of the last `period` bars. -/
def williamsR (bars : List Bar) (period : Nat) : Float :=
  if covers period bars then percentR (trailing period bars) else neutralWilliamsR

end MarketSignals.Indicator
