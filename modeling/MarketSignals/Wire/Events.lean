import MarketSignals.Event
import MarketSignals.Wire.Values

/-!
# Events in documents

An event is written as an object with a tag for its stage, or, on a queue that is its stage's own,
without. A tagged document is held whole before it is read: everything in it has to denote
something, and it may not nest too deeply. It may also be a list of the tag and the fields.
-/

namespace MarketSignals

open Json

namespace Event

/-- The fields of an event without its tag. -/
def fields : Event → List (String × Json)
  | .priceIngested symbol market =>
    [("symbol", .ofText symbol), ("market", .ofText market)]
  | .indicatorRequested symbol market =>
    [("symbol", .ofText symbol), ("market", .ofText market)]
  | .decisionRequested symbol market indicators =>
    [("symbol", .ofText symbol), ("market", .ofText market), ("indicators", indicators.toJson)]
  | .signalGenerated symbol market signal =>
    [("symbol", .ofText symbol), ("market", .ofText market), ("signal", signal.toJson)]

/-- An event as a document for its stage's queue. -/
def toJob (event : Event) : Json :=
  .ofFields event.fields

/-- An event as a document that names its stage. -/
def toJson (event : Event) : Json :=
  .ofFields (("type", .ofText event.stage.tag) :: event.fields)

/-- The event of a stage that a document on its queue denotes. -/
def ofJob? (stage : Stage) (document : Json) : Option Event :=
  match stage with
  | .priceIngested => do
    let fields ← document.fields? ["symbol", "market"]
    let symbol ← required fields "symbol" text?
    let market ← required fields "market" text?
    some (.priceIngested symbol market)
  | .indicatorRequested => do
    let fields ← document.fields? ["symbol", "market"]
    let symbol ← required fields "symbol" text?
    let market ← required fields "market" text?
    some (.indicatorRequested symbol market)
  | .decisionRequested => do
    let fields ← document.fields? ["symbol", "market", "indicators"]
    let symbol ← required fields "symbol" text?
    let market ← required fields "market" text?
    let indicators ← required fields "indicators" Snapshot.ofJson?
    some (.decisionRequested symbol market indicators)
  | .signalGenerated => do
    let fields ← document.fields? ["symbol", "market", "signal"]
    let symbol ← required fields "symbol" text?
    let market ← required fields "market" text?
    let signal ← required fields "signal" Signal.ofJson?
    some (.signalGenerated symbol market signal)

/-- The stage a tag names. -/
def stage? (tag : Json) : Option Stage := do
  let name ← tag.text?
  Stage.ofTag? name

/-- Whether a member of an object is the tag. -/
def isTag (member : List Char × Json) : Bool :=
  bodyText? member.1 == some "type"

/-- The stage that a tagged document names, and the document without its tag. -/
def split? : Json → Option (Stage × Json)
  | .object members =>
    match members.filter isTag with
    | [(_, tag)] => (stage? tag).map (·, .object (members.filter fun member => !isTag member))
    | _ => none
  | .array (tag :: items) => (stage? tag).map (·, .array items)
  | _ => none

/-- The event a document denotes that names its stage. -/
def ofJson? (document : Json) : Option Event :=
  if document.isMeaningful && document.depth ≤ maxDepth then do
    let (stage, rest) ← split? document
    ofJob? stage rest.emptyAsNull
  else none

end Event

end MarketSignals
