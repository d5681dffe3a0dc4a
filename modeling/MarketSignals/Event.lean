import MarketSignals.Signal

/-!
# Events

The events that move an instrument through the stages of a cycle: a price arrives, indicators are
asked for, a decision is asked for, a signal is there.
-/

namespace MarketSignals

/-- A stage of the cycle. -/
inductive Stage where
  | priceIngested
  | indicatorRequested
  | decisionRequested
  | signalGenerated
deriving DecidableEq

namespace Stage

/-- The name of a stage, which is also that of the queue its events travel on. -/
def queue : Stage → String
  | .priceIngested => "price-ingested"
  | .indicatorRequested => "indicator-requested"
  | .decisionRequested => "decision-requested"
  | .signalGenerated => "signal-generated"

/-- The tag of a stage's events in documents. -/
def tag : Stage → String
  | .priceIngested => "price_ingested"
  | .indicatorRequested => "indicator_requested"
  | .decisionRequested => "decision_requested"
  | .signalGenerated => "signal_generated"

/-- The stage of a tag. -/
def ofTag? : String → Option Stage
  | "price_ingested" => some .priceIngested
  | "indicator_requested" => some .indicatorRequested
  | "decision_requested" => some .decisionRequested
  | "signal_generated" => some .signalGenerated
  | _ => none

/-- All stages, in the order of a cycle. -/
def all : List Stage :=
  [.priceIngested, .indicatorRequested, .decisionRequested, .signalGenerated]

/-- The stage that follows. -/
def next? : Stage → Option Stage
  | .priceIngested => some .indicatorRequested
  | .indicatorRequested => some .decisionRequested
  | .decisionRequested => some .signalGenerated
  | .signalGenerated => none

@[simp] theorem ofTag?_tag (stage : Stage) : ofTag? stage.tag = some stage := by
  cases stage <;> rfl

end Stage

/-- An event about an instrument of a market. -/
inductive Event where
  /-- A new price was stored. -/
  | priceIngested (symbol market : String)
  /-- Indicators should be computed. -/
  | indicatorRequested (symbol market : String)
  /-- A snapshot is ready to be decided on. -/
  | decisionRequested (symbol market : String) (indicators : Snapshot)
  /-- A signal was stored; this ends the cycle. -/
  | signalGenerated (symbol market : String) (signal : Signal)
deriving DecidableEq

namespace Event

/-- The stage an event belongs to. -/
def stage : Event → Stage
  | .priceIngested .. => .priceIngested
  | .indicatorRequested .. => .indicatorRequested
  | .decisionRequested .. => .decisionRequested
  | .signalGenerated .. => .signalGenerated

/-- The symbol of the instrument. -/
def symbol : Event → String
  | .priceIngested symbol _ => symbol
  | .indicatorRequested symbol _ => symbol
  | .decisionRequested symbol _ _ => symbol
  | .signalGenerated symbol _ _ => symbol

/-- The market of the instrument. -/
def market : Event → String
  | .priceIngested _ market => market
  | .indicatorRequested _ market => market
  | .decisionRequested _ market _ => market
  | .signalGenerated _ market _ => market

end Event

end MarketSignals
