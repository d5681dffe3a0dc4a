import MarketSignals.Decision.Basic
import MarketSignals.Indicator.Series

/-!
# Signals

The lasting form of a decision, with a strength that is derived from the decision and the readings
it was made on.
-/

namespace MarketSignals

/-- A signal: a decision on an instrument of a market, with its strength. -/
structure Signal where
  /-- The instrument's symbol. -/
  symbol : String
  /-- Its market. -/
  market : String
  /-- What to do. -/
  action : Action
  /-- How strong the signal is, from zero to one. -/
  strength : Float
  /-- How sure the decision was, from zero to one. -/
  confidence : Float
  /-- Why. -/
  reasons : List String
  /-- Who decided. -/
  source : Origin
  /-- When the decision was made. -/
  producedAt : Timestamp
deriving DecidableEq

/-- Decisions of the rules count less than remote ones by this factor. -/
def ruleStrengthFactor : Float := 0.8

/-- What bands of some width add to the strength of a remote decision. -/
def bandWidthBonus : Float := 0.1

/-- A mean range above this is a high volatility. -/
def highVolatility : Float := 1000

/-- What a high volatility adds to the strength of a remote decision. -/
def highVolatilityBonus : Float := 0.05

/-- The strength of a decision before it is brought between zero and one. -/
def Decision.rawStrength (d : Decision) (r : Readings) : Float :=
  match d.source with
  | .rule => d.confidence * ruleStrengthFactor
  | .remote =>
    let base := if 0 < r.bollinger.width then d.confidence + bandWidthBonus else d.confidence
    if highVolatility < r.atr then base + highVolatilityBonus else base

/-- The strength of a decision, from zero to one. -/
def Decision.strength (d : Decision) (r : Readings) : Float :=
  Series.clampUnit (d.rawStrength r)

/-- The signal of a decision for a market, with strength and confidence brought between zero and
one. -/
def Signal.ofDecision (d : Decision) (market : String) (strength : Float) : Signal where
  symbol := d.symbol
  market := market
  action := d.action
  strength := Series.clampUnit strength
  confidence := Series.clampUnit d.confidence
  reasons := d.reasons
  source := d.source
  producedAt := d.producedAt

end MarketSignals
