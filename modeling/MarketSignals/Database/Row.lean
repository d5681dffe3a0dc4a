import MarketSignals.Database.Statement
import MarketSignals.Wire.Values

/-!
# Rows of the database

What the rows that a statement returns mean. A column that holds something else than its kind
fails the whole answer; so does an action or an origin without a meaning.
-/

namespace MarketSignals

/-- A row, by its columns in the order of the statement. -/
abbrev Row : Type :=
  List SqlValue

namespace Row

/-- A column that is read as a kind of value. -/
def column {α : Type} (row : Row) (index : Nat) (kind : String) (read : SqlValue → Option α) :
    Except StoreError α :=
  match (row[index]?).bind read with
  | some value => .ok value
  | none => .error (.database ("column " ++ toString index ++ " holds no " ++ kind))

/-- A column of texts. -/
def text (row : Row) (index : Nat) : Except StoreError String :=
  row.column index "text" fun
    | .text value => some value
    | _ => none

/-- A column of texts that may hold nothing. -/
def text? (row : Row) (index : Nat) : Except StoreError (Option String) :=
  row.column index "text" fun
    | .text value => some (some value)
    | .null => some none
    | _ => none

/-- A column of numbers. -/
def double (row : Row) (index : Nat) : Except StoreError Float :=
  row.column index "number" fun
    | .double value => some value
    | _ => none

/-- A column of integers. -/
def long (row : Row) (index : Nat) : Except StoreError Int64 :=
  row.column index "integer" fun
    | .long value => some value
    | _ => none

/-- A column of integers that may hold nothing. -/
def long? (row : Row) (index : Nat) : Except StoreError (Option Int64) :=
  row.column index "integer" fun
    | .long value => some (some value)
    | .null => some none
    | _ => none

/-- A column of truth values. -/
def boolean (row : Row) (index : Nat) : Except StoreError Bool :=
  row.column index "truth value" fun
    | .boolean value => some value
    | _ => none

/-- A column of points in time. -/
def timestamp (row : Row) (index : Nat) : Except StoreError Timestamp :=
  row.column index "point in time" fun
    | .timestamp micros => Timestamp.ofMicros? micros
    | _ => none

/-- The count that a signed integer stands for; a negative one stands for zero. -/
def countOf (value : Int64) : UInt64 :=
  if value < 0 then 0 else value.toUInt64

/-- The bar in a row. -/
def bar (row : Row) : Except StoreError Bar := do
  let time ← row.timestamp 0
  let volume ← row.long 7
  let tradeAmount ← row.long? 8
  let symbol ← row.text 1
  let market ← row.text 2
  let opening ← row.double 3
  let high ← row.double 4
  let low ← row.double 5
  let close ← row.double 6
  return ⟨symbol, market, opening, high, low, close, countOf volume, countOf (tradeAmount.getD 0),
    time⟩

/-- The reasons in a column's text. -/
def reasonsOf (text : String) : Except StoreError (List String) :=
  match (Json.read? text.toList).bind (Json.list? Json.text?) with
  | some reasons => .ok reasons
  | none => .error (.serialization "no list of texts")

/-- The action in a column's text. -/
def actionOf (text : String) : Except StoreError Action :=
  (Action.ofText text).mapError fun name => .invalidRow (Action.unknown name)

/-- The origin in a column's text. -/
def originOf (text : String) : Except StoreError Origin :=
  match Origin.ofName? text with
  | some origin => .ok origin
  | none => .error (.invalidRow (Origin.unknown text))

/-- The signal in a row. -/
def signal (row : Row) : Except StoreError Signal := do
  let producedAt ← row.timestamp 0
  let action ← row.text 3
  let source ← row.text 6
  let reasons ← row.text 7
  let symbol ← row.text 1
  let market ← row.text 2
  let action ← actionOf action
  let strength ← row.double 4
  let confidence ← row.double 5
  let source ← originOf source
  let reasons ← reasonsOf reasons
  return ⟨symbol, market, action, strength, confidence, reasons, source, producedAt⟩

/-- The instrument in a row, its name possibly missing. -/
def instrument (row : Row) : Except StoreError Instrument := do
  let name ← row.text? 2
  let symbol ← row.text 0
  let market ← row.text 1
  let active ← row.boolean 3
  return ⟨symbol, market, name.getD "", active⟩

/-- The instrument in a row, if it is active; of others nothing else is read. -/
def activeInstrument? (row : Row) : Except StoreError (Option Instrument) := do
  if ← row.boolean 3 then
    let instrument ← row.instrument
    return some instrument
  else
    return none

end Row

namespace Database

/-- The newest bars in rows that come the newest first, at most `limit`, the oldest first. Of bars
of one time the one inserted first is kept, which comes last. -/
def recentPrices (limit : Nat) (rows : List Row) : Except StoreError (List Bar) := do
  let bars ← rows.mapM Row.bar
  return Series.trailing limit (collapseByTime bars.reverse)

/-- The answer to a query that rows give. -/
def answerOf (rows : List Row) : (query : Store.Query) → Except StoreError query.Answer
  | .findInstrument _ => rows.head?.mapM Row.instrument
  | .activeInstruments => do
    let found ← rows.mapM Row.activeInstrument?
    return Store.activeAmong (found.filterMap id)
  | .recentPrices _ limit => recentPrices limit rows
  | .latestPrice _ => return (← recentPrices 1 rows).getLast?
  | .recentSignals _ _ => rows.mapM Row.signal
  | .addInstrument _ => return ()
  | .appendPrice _ => return ()
  | .appendSnapshot _ => return ()
  | .appendSignal _ => return ()
  | .prune _ => return ()

end Database

end MarketSignals
