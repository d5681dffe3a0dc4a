import MarketSignals.Cache
import MarketSignals.Event
import MarketSignals.Store

/-!
# Failures of the pipeline

Why a stage does not finish. A malformed event never succeeds and is dropped; every other failure
may pass, and its event is tried again.
-/

namespace MarketSignals

/-- Why an event was not published. -/
inductive PublishError where
  /-- The broker did not take the event onto the queue of its stage. -/
  | broker (stage : Stage) (reason : String)
deriving DecidableEq

/-- The message about an event that was not published. -/
def PublishError.message : PublishError → String
  | .broker stage reason => "failed to enqueue on " ++ stage.queue ++ ": " ++ reason

/-- What is wrong with an event. -/
inductive Malformed where
  /-- The symbol is blank. -/
  | emptySymbol
  /-- There is no instrument of the symbol. -/
  | unknownInstrument (symbol : String)
  /-- The instrument is of another market. -/
  | marketMismatch (symbol eventMarket instrumentMarket : String)
  /-- The snapshot is of another instrument. -/
  | foreignSnapshot (snapshotSymbol symbol : String)
  /-- The instrument has no price. -/
  | noPrice (symbol : String)
deriving DecidableEq

/-- What is wrong with an event, in words. -/
def Malformed.reason : Malformed → String
  | .emptySymbol => "empty symbol"
  | .unknownInstrument symbol => "unknown instrument " ++ symbol
  | .marketMismatch symbol eventMarket instrumentMarket =>
    "market mismatch for " ++ symbol ++ ": event " ++ eventMarket ++ ", instrument " ++
      instrumentMarket
  | .foreignSnapshot snapshotSymbol symbol =>
    "indicator snapshot for " ++ snapshotSymbol ++ " attached to " ++ symbol
  | .noPrice symbol => "no price recorded for " ++ symbol

/-- Why a stage did not finish. -/
inductive PipelineError where
  /-- The store failed. -/
  | store (error : StoreError)
  /-- The cache failed. -/
  | cache (error : CacheError)
  /-- The next event was not published. -/
  | publish (error : PublishError)
  /-- The event makes no sense. -/
  | malformed (cause : Malformed)
deriving DecidableEq

namespace PipelineError

/-- The message about an event that makes no sense. -/
def malformedMessage (reason : String) : String :=
  "malformed event: " ++ reason

/-- The message about a stage that did not finish. -/
def message : PipelineError → String
  | .store error => "store error: " ++ error.message
  | .cache error => "cache error: " ++ error.message
  | .publish error => "publish error: " ++ error.message
  | .malformed cause => malformedMessage cause.reason

/-- Whether the event is tried again. -/
def isRetryable : PipelineError → Bool
  | .malformed _ => false
  | _ => true

end PipelineError

end MarketSignals
