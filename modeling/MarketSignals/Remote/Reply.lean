import MarketSignals.Decimal.Plain
import MarketSignals.Decision.Source
import MarketSignals.Wire.Values

/-!
# Replies of the decision service

What the service answers, and when an answer is a decision on a request: it names the request's
instrument and an action, and its confidence is a number from zero to one. The decision is stamped
with the local time, whatever time the service gives.
-/

namespace MarketSignals

/-- An answer of the decision service. -/
structure ServiceReply where
  /-- The symbol of the instrument decided on. -/
  symbol : String
  /-- The action, in words. -/
  decision : String
  /-- How sure the service is. -/
  confidence : Float
  /-- Why. -/
  reasoning : List String
  /-- The time the service gives, if any. -/
  timestamp : Option String
deriving DecidableEq

namespace ServiceReply

/-- A text, or `null` for none. -/
def textOrNull? : Json → Option (Option String)
  | .null => some none
  | document => document.text?.map some

/-- The reply a document denotes; reasons and time may be left out. -/
def ofJson? (document : Json) : Option ServiceReply := do
  let fields ← document.fields? ["symbol", "decision", "confidence", "reasoning", "timestamp"]
  let symbol ← Json.required fields "symbol" Json.text?
  let decision ← Json.required fields "decision" Json.text?
  let confidence ← Json.required fields "confidence" Json.float?
  let reasoning ← Json.optional fields "reasoning" (Json.list? Json.text?) []
  let timestamp ← Json.optional fields "timestamp" textOrNull? none
  some ⟨symbol, decision, confidence, reasoning, timestamp⟩

/-- The decision that a reply makes on a request, received at a time. -/
def decide (reply : ServiceReply) (request : DecisionRequest) (now : Timestamp) :
    Except DecisionError Decision :=
  if reply.symbol ≠ request.symbol then
    .error (.invalidResponse ("response for '" ++ reply.symbol ++
      "' does not match request for '" ++ request.symbol ++ "'"))
  else
    match Action.ofText reply.decision with
    | .error name => .error (.invalidResponse (Action.unknown name))
    | .ok action =>
      if 0 ≤ reply.confidence ∧ reply.confidence ≤ 1 then
        .ok ⟨request.symbol, action, reply.confidence, reply.reasoning, .remote, now⟩
      else
        .error (.invalidResponse ("confidence " ++
          String.ofList (Decimal.plain reply.confidence) ++ " outside [0, 1]"))

end ServiceReply

end MarketSignals
