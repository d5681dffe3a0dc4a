import MarketSignals.Indicator.Readings
import MarketSignals.Json.Shape
import MarketSignals.Text.Blank

/-!
# Decisions

What may be decided about an instrument, who decided it, and the request that a decision answers.
-/

namespace MarketSignals

/-- What to do about an instrument. -/
inductive Action where
  | buy
  | sell
  | hold
deriving DecidableEq

namespace Action

/-- The name of an action. -/
def name : Action → String
  | .buy => "BUY"
  | .sell => "SELL"
  | .hold => "HOLD"

/-- The action of a name. -/
def ofName? : String → Option Action
  | "BUY" => some .buy
  | "SELL" => some .sell
  | "HOLD" => some .hold
  | _ => none

/-- The action that a text stands for, in any ASCII case and with blanks around it; otherwise the
text as it was looked up. -/
def ofText (text : String) : Except String Action :=
  let name := String.ofList (Text.upperCase (Text.trim text.toList))
  match ofName? name with
  | some action => .ok action
  | none => .error name

/-- The message about a text that stands for no action. -/
def unknown (name : String) : String :=
  "unknown action '" ++ name ++ "'"

@[simp] theorem ofName?_name (action : Action) : ofName? action.name = some action := by
  cases action <;> rfl

end Action

/-- Who made a decision. -/
inductive Origin where
  /-- A remote service. -/
  | remote
  /-- The rules of this library. -/
  | rule
deriving DecidableEq

namespace Origin

/-- The name of an origin. -/
def name : Origin → String
  | .remote => "REMOTE"
  | .rule => "RULE"

/-- The origin of a name, which is matched exactly. -/
def ofName? : String → Option Origin
  | "REMOTE" => some .remote
  | "RULE" => some .rule
  | _ => none

/-- The message about a text that names no origin. -/
def unknown (name : String) : String :=
  "unknown decision origin '" ++ name ++ "'"

@[simp] theorem ofName?_name (origin : Origin) : ofName? origin.name = some origin := by
  cases origin <;> rfl

end Origin

/-- A question about an instrument, with what is known about it. -/
structure DecisionRequest where
  /-- The instrument's symbol. -/
  symbol : String
  /-- Its market. -/
  market : String
  /-- Its latest bar. -/
  price : Bar
  /-- Its snapshot. -/
  indicators : Snapshot
  /-- Anything else, by name. -/
  metadata : Keyed Json

namespace DecisionRequest

/-- The request about the instrument of a bar. -/
def ofBar (price : Bar) (indicators : Snapshot) : DecisionRequest :=
  ⟨price.symbol, price.market, price, indicators, .empty⟩

/-- The request with one more piece of metadata. -/
def withMetadata (request : DecisionRequest) (name : String) (value : Json) : DecisionRequest :=
  { request with metadata := request.metadata.insert name value }

end DecisionRequest

/-- A decision about an instrument. -/
structure Decision where
  /-- The instrument's symbol. -/
  symbol : String
  /-- What to do. -/
  action : Action
  /-- How sure the decision is, from zero to one where its maker keeps to that. -/
  confidence : Float
  /-- Why. -/
  reasons : List String
  /-- Who made it. -/
  source : Origin
  /-- When it was made. -/
  producedAt : Timestamp
deriving DecidableEq

end MarketSignals
