import MarketSignals.Indicator.Momentum
import MarketSignals.Indicator.Trend
import MarketSignals.Time.Written

/-!
# Computing a snapshot

All indicators of a series at once. The bars may come in any order; they are sorted by time, and
the snapshot carries the time of the newest.
-/

namespace MarketSignals

/-- Why a series has no snapshot. -/
inductive IndicatorError where
  /-- Fewer bars than the longest lookback takes. -/
  | insufficientData (required available : Nat)
  /-- A bar, of a symbol and at a time, has a price that is no number. -/
  | nonFinitePrice (symbol : String) (time : Timestamp)
deriving DecidableEq

namespace IndicatorError

/-- The reason why a bar of a symbol and a time cannot be used. -/
def nonFiniteReason (symbol : String) (time : Timestamp) : String :=
  "non-finite price for " ++ symbol ++ " at " ++ String.ofList time.inMessage

/-- The message about prices that cannot be used. -/
def invalidPriceMessage (reason : String) : String :=
  "invalid price data: " ++ reason

/-- The message about a series without a snapshot. -/
def message : IndicatorError → String
  | .insufficientData required available =>
    "insufficient data: " ++ toString available ++ " price points available, " ++
      toString required ++ " required"
  | .nonFinitePrice symbol time => invalidPriceMessage (nonFiniteReason symbol time)

end IndicatorError

/-- The order of bars in time. -/
def Bar.noLaterThan (a b : Bar) : Bool :=
  a.time ≤ b.time

/-- Bars in the order of time; bars of one time stay in their order. -/
def sortByTime (bars : List Bar) : List Bar :=
  bars.mergeSort Bar.noLaterThan

namespace Lookbacks

/-- Every indicator of a series ordered by time. -/
def readings (l : Lookbacks) (bars : List Bar) : Readings where
  rsi := Indicator.rsi bars l.rsi
  macd := Indicator.macd bars l.emaFast l.emaSlow l.macdSignal l.signalLine
  smaShort := Indicator.sma bars l.smaShort
  smaLong := Indicator.sma bars l.smaLong
  emaFast := Indicator.ema bars l.emaFast
  emaSlow := Indicator.ema bars l.emaSlow
  bollinger := Indicator.bollinger bars l.bollinger l.bollingerDeviations
  stochastic := Indicator.stochastic bars l.stochasticK l.stochasticD
  williamsR := Indicator.williamsR bars l.williams
  atr := Indicator.atr bars l.atr
  obv := Indicator.obv bars

/-- The snapshot of a series. It takes enough bars, all with prices that are numbers, and periods
whose sums are machine words. -/
def compute (l : Lookbacks) (symbol : String) (bars : List Bar) :
    Except IndicatorError Snapshot :=
  if bars.length < l.requiredBars then
    .error (.insufficientData l.requiredBars bars.length)
  else
    match bars.find? fun bar => !bar.isFinite with
    | some bar => .error (.nonFinitePrice bar.symbol bar.time)
    | none =>
      let sorted := sortByTime bars
      match sorted.getLast? with
      | some newest => .ok ⟨symbol, l.readings sorted, sorted.length, newest.time⟩
      | none => .error (.insufficientData l.requiredBars 0)

/-- The snapshot of a series with any periods. Where a sum of periods is no machine word, there is
no outcome, neither a snapshot nor an error. -/
def compute? (l : Lookbacks) (symbol : String) (bars : List Bar) :
    Option (Except IndicatorError Snapshot) :=
  l.requiredBars?.map fun _ => l.compute symbol bars

end Lookbacks

end MarketSignals
