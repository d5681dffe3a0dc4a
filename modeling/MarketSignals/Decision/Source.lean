import MarketSignals.Decision.Rules
import MarketSignals.Time.Span

/-!
# Sources of decisions

A source answers requests, or fails. It may answer by what it was asked before. The rules stand in
for a source that fails, in the same cycle.
-/

namespace MarketSignals

/-- Why a source gives no decision. Each may succeed when tried again. -/
inductive DecisionError where
  /-- The source cannot be reached or refuses to answer. -/
  | unavailable (reason : String)
  /-- The source did not answer in time. -/
  | timeout (limit : Span)
  /-- The answer is no decision on the request. -/
  | invalidResponse (reason : String)
deriving DecidableEq

/-- The message about a failure of a source. -/
def DecisionError.message : DecisionError → String
  | .unavailable reason => "decision service unavailable: " ++ reason
  | .timeout limit => "decision service timed out after " ++ String.ofList limit.written
  | .invalidResponse reason => "invalid decision response: " ++ reason

/-- What a source returns, and how long it took. -/
structure Answer where
  /-- The decision, or why there is none. -/
  result : Except DecisionError Decision
  /-- The seconds from the request to the result. -/
  seconds : Float

/-- A source of decisions. -/
structure DecisionSource where
  /-- The origin of its decisions, whatever they say themselves. -/
  origin : Origin
  /-- The answer to a request at a time, the newest of those it was asked before listed last. -/
  answer : List DecisionRequest → Timestamp → DecisionRequest → Answer

end MarketSignals
