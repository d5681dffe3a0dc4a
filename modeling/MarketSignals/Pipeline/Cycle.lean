import MarketSignals.Config
import MarketSignals.Indicator.Compute
import MarketSignals.Pipeline.Process

/-!
# The cycle

What each stage does with its event. A stage reads the current state, writes what it adds, and
publishes the next event last. A cycle ends with a signal, or early where the prices do not make a
snapshot.
-/

namespace MarketSignals

/-- How a stage finished. -/
inductive Outcome where
  /-- The event of the next stage was published. -/
  | advanced
  /-- The cycle ended without a signal. -/
  | endedEarly (error : IndicatorError)
  /-- The cycle ended with its signal. -/
  | completed
deriving DecidableEq

namespace Pipeline

/-- The instrument of a symbol, if the symbol is not blank and the instrument of the market. -/
def validate (symbol market : String) : Attempt Instrument := do
  if (Text.trim symbol.toList).isEmpty then
    Attempt.refuse .emptySymbol
  else
    match ← Attempt.store (.findInstrument symbol) with
    | none => Attempt.refuse (.unknownInstrument symbol)
    | some instrument =>
      if instrument.market = market then pure instrument
      else Attempt.refuse (.marketMismatch symbol market instrument.market)

/-- Stores a new price and starts a cycle. -/
def recordPrice (bar : Bar) : Attempt Unit := do
  let _ ← validate bar.symbol bar.market
  Attempt.store (.appendPrice bar)
  Attempt.publish (.priceIngested bar.symbol bar.market)

/-- The latest price, from the cache where it is there. -/
def latestPrice (symbol : String) : Attempt (Option Bar) := do
  match ← Attempt.cachedPrice symbol with
  | some bar => pure (some bar)
  | none =>
    match ← Attempt.store (.latestPrice symbol) with
    | some bar => do
      Attempt.cache (.setPrice bar)
      pure (some bar)
    | none => pure none

/-- The recent signals, the newest first, from the cache where they are there. -/
def recentSignals (config : Config) (symbol : String) : Attempt (List Signal) := do
  match ← Attempt.cachedSignals symbol with
  | some signals => pure signals
  | none => do
    let signals ← Attempt.store (.recentSignals symbol config.recentSignals)
    Attempt.cache (.setSignals symbol signals)
    pure signals

/-- The decision of the rules. -/
def decideByRules (request : DecisionRequest) : Process Decision := do
  let now ← Process.perform .now
  pure (Rules.decide request now)

/-- The decision of the primary source, under the source's own origin, or of the rules where there
is none or it fails. -/
def decide (request : DecisionRequest) : Process Decision := do
  match ← Process.perform (.consult request) with
  | none => decideByRules request
  | some (origin, answer) => do
    Process.perform (.record (.decisionSeconds answer.seconds))
    match answer.result with
    | .ok decision => pure { decision with source := origin }
    | .error _ => do
      Process.perform (.record (.fallbacks 1))
      decideByRules request

/-- The request that a snapshot and the latest price make. -/
def request (config : Config) (price : Bar) (indicators : Snapshot) : DecisionRequest :=
  (((DecisionRequest.ofBar price indicators).withMetadata "data_points"
    (.ofNat indicators.dataPoints)).withMetadata "timestamp"
    (.ofText (String.ofList indicators.computedAt.withOffset))).withMetadata "worker"
    (.ofText config.workerName)

/-- A new price: what is cached for the instrument is dropped. -/
def onPriceIngested (symbol market : String) : Attempt Outcome := do
  let _ ← validate symbol market
  Attempt.cache (.invalidate symbol)
  Attempt.publish (.indicatorRequested symbol market)
  pure .advanced

/-- Indicators are asked for: they are computed, stored and cached. -/
def onIndicatorRequested (config : Config) (symbol market : String) : Attempt Outcome := do
  let _ ← validate symbol market
  let bars ← Attempt.store (.recentPrices symbol config.effectivePriceWindow)
  match config.lookbacks.compute symbol bars with
  | .error error => do
    match error with
    | .insufficientData _ _ => Attempt.record (.insufficientData 1)
    | .nonFinitePrice _ _ => pure ()
    pure (.endedEarly error)
  | .ok snapshot => do
    Attempt.store (.appendSnapshot snapshot)
    Attempt.cache (.setSnapshot snapshot)
    Attempt.publish (.decisionRequested symbol market snapshot)
    pure .advanced

/-- A decision is asked for: its signal is stored and cached. -/
def onDecisionRequested (config : Config) (symbol market : String) (indicators : Snapshot) :
    Attempt Outcome := do
  let _ ← validate symbol market
  if indicators.symbol = symbol then
    match ← latestPrice symbol with
    | none => Attempt.refuse (.noPrice symbol)
    | some price => do
      let decision ← ExceptT.lift (decide (request config price indicators))
      let signal := Signal.ofDecision decision market (decision.strength indicators.readings)
      Attempt.store (.appendSignal signal)
      let recent ← Attempt.store (.recentSignals symbol config.recentSignals)
      Attempt.cache (.setSignals symbol recent)
      Attempt.record (.signals signal.source.name 1)
      Attempt.publish (.signalGenerated symbol market signal)
      pure .advanced
  else
    Attempt.refuse (.foreignSnapshot indicators.symbol symbol)

/-- A signal is there: nothing is left to do. -/
def onSignalGenerated (symbol market : String) : Attempt Outcome := do
  let _ ← validate symbol market
  pure .completed

/-- The stage of an event. -/
def stageOf (config : Config) : Event → Attempt Outcome
  | .priceIngested symbol market => onPriceIngested symbol market
  | .indicatorRequested symbol market => onIndicatorRequested config symbol market
  | .decisionRequested symbol market indicators =>
    onDecisionRequested config symbol market indicators
  | .signalGenerated symbol market _ => onSignalGenerated symbol market

/-- Runs the stage of an event. -/
def handle (config : Config) (event : Event) : Attempt Outcome := do
  Attempt.record (.stageEvents event.stage.queue 1)
  stageOf config event

end Pipeline

end MarketSignals
