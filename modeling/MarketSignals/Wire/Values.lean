import MarketSignals.Json.Shape
import MarketSignals.Json.Reader
import MarketSignals.Json.Printer
import MarketSignals.Signal
import MarketSignals.Time.Reader

/-!
# Values in documents

The documents of bars, instruments, snapshots, decisions, signals and requests, and how they are
read. Fields are written in a fixed order and read in any; a field without a default has to occur.
-/

namespace MarketSignals

open Json

/-! ### Leaves -/

/-- A point in time as a document. -/
def Timestamp.toJson (t : Timestamp) : Json :=
  .ofText (String.ofList t.written)

/-- The point in time a document denotes. -/
def Timestamp.ofJson? (document : Json) : Option Timestamp := do
  let text ← document.text?
  Timestamp.read? text.toList

/-- A count of 64 bits as a document. -/
def countJson (count : UInt64) : Json :=
  .ofNat count.toNat

/-- The count of 64 bits a document denotes. -/
def countOfJson? (document : Json) : Option UInt64 :=
  document.count?.map UInt64.ofNat

/-- The action a document names. -/
def Action.ofJson? (document : Json) : Option Action := do
  let name ← document.name?
  Action.ofName? name

/-- The origin a document names. -/
def Origin.ofJson? (document : Json) : Option Origin := do
  let name ← document.name?
  Origin.ofName? name

/-! ### Prices and instruments -/

/-- A bar as a document. -/
def Bar.toJson (b : Bar) : Json :=
  .ofFields [("symbol", .ofText b.symbol), ("market", .ofText b.market),
    ("open", .ofFloat b.opening), ("high", .ofFloat b.high), ("low", .ofFloat b.low),
    ("close", .ofFloat b.close), ("volume", countJson b.volume),
    ("trade_amount", countJson b.tradeAmount), ("timestamp", b.time.toJson)]

/-- The names of a bar's fields. -/
def Bar.fieldNames : List String :=
  ["symbol", "market", "open", "high", "low", "close", "volume", "trade_amount", "timestamp"]

/-- The bar a document denotes. -/
def Bar.ofJson? (document : Json) : Option Bar := do
  let fields ← document.fields? Bar.fieldNames
  let symbol ← required fields "symbol" text?
  let market ← required fields "market" text?
  let opening ← required fields "open" float?
  let high ← required fields "high" float?
  let low ← required fields "low" float?
  let close ← required fields "close" float?
  let volume ← required fields "volume" countOfJson?
  let tradeAmount ← required fields "trade_amount" countOfJson?
  let time ← required fields "timestamp" Timestamp.ofJson?
  some ⟨symbol, market, opening, high, low, close, volume, tradeAmount, time⟩

/-- An instrument as a document. -/
def Instrument.toJson (i : Instrument) : Json :=
  .ofFields [("symbol", .ofText i.symbol), ("market", .ofText i.market), ("name", .ofText i.name),
    ("active", .bool i.active)]

/-- The instrument a document denotes; its name may be left out. -/
def Instrument.ofJson? (document : Json) : Option Instrument := do
  let fields ← document.fields? ["symbol", "market", "name", "active"]
  let symbol ← required fields "symbol" text?
  let market ← required fields "market" text?
  let name ← optional fields "name" text? ""
  let active ← required fields "active" bool?
  some ⟨symbol, market, name, active⟩

/-! ### Snapshots -/

/-- The averages' difference as a document. -/
def Macd.toJson (m : Macd) : Json :=
  .ofFields [("macd", .ofFloat m.line), ("signal", .ofFloat m.signal),
    ("histogram", .ofFloat m.histogram)]

/-- The averages' difference a document denotes. -/
def Macd.ofJson? (document : Json) : Option Macd := do
  let fields ← document.fields? ["macd", "signal", "histogram"]
  let line ← required fields "macd" float?
  let signal ← required fields "signal" float?
  let histogram ← required fields "histogram" float?
  some ⟨line, signal, histogram⟩

/-- Bands as a document. -/
def Bands.toJson (b : Bands) : Json :=
  .ofFields [("upper", .ofFloat b.upper), ("middle", .ofFloat b.middle),
    ("lower", .ofFloat b.lower)]

/-- The bands a document denotes. -/
def Bands.ofJson? (document : Json) : Option Bands := do
  let fields ← document.fields? ["upper", "middle", "lower"]
  let upper ← required fields "upper" float?
  let middle ← required fields "middle" float?
  let lower ← required fields "lower" float?
  some ⟨upper, middle, lower⟩

/-- The place in the recent range as a document. -/
def Stochastic.toJson (s : Stochastic) : Json :=
  .ofFields [("k", .ofFloat s.k), ("d", .ofFloat s.d)]

/-- The place in the recent range a document denotes. -/
def Stochastic.ofJson? (document : Json) : Option Stochastic := do
  let fields ← document.fields? ["k", "d"]
  let k ← required fields "k" float?
  let d ← required fields "d" float?
  some ⟨k, d⟩

/-- Readings as a document. -/
def Readings.toJson (r : Readings) : Json :=
  .ofFields [("rsi", .ofFloat r.rsi), ("macd", r.macd.toJson), ("sma_20", .ofFloat r.smaShort),
    ("sma_50", .ofFloat r.smaLong), ("ema_12", .ofFloat r.emaFast), ("ema_26", .ofFloat r.emaSlow),
    ("bollinger", r.bollinger.toJson), ("stochastic", r.stochastic.toJson),
    ("williams_r", .ofFloat r.williamsR), ("atr", .ofFloat r.atr), ("obv", .ofFloat r.obv)]

/-- The names of the readings' fields. -/
def Readings.fieldNames : List String :=
  ["rsi", "macd", "sma_20", "sma_50", "ema_12", "ema_26", "bollinger", "stochastic", "williams_r",
    "atr", "obv"]

/-- The readings a document denotes. -/
def Readings.ofJson? (document : Json) : Option Readings := do
  let fields ← document.fields? Readings.fieldNames
  let rsi ← required fields "rsi" float?
  let macd ← required fields "macd" Macd.ofJson?
  let smaShort ← required fields "sma_20" float?
  let smaLong ← required fields "sma_50" float?
  let emaFast ← required fields "ema_12" float?
  let emaSlow ← required fields "ema_26" float?
  let bollinger ← required fields "bollinger" Bands.ofJson?
  let stochastic ← required fields "stochastic" Stochastic.ofJson?
  let williamsR ← required fields "williams_r" float?
  let atr ← required fields "atr" float?
  let obv ← required fields "obv" float?
  some ⟨rsi, macd, smaShort, smaLong, emaFast, emaSlow, bollinger, stochastic, williamsR, atr, obv⟩

/-- Readings as one object of names and numbers. -/
def Readings.flatJson (r : Readings) : Json :=
  .ofFields (r.flat.map fun (name, value) => (name, .ofFloat value))

/-- A snapshot as a document. -/
def Snapshot.toJson (s : Snapshot) : Json :=
  .ofFields [("symbol", .ofText s.symbol), ("values", s.readings.toJson),
    ("data_points", .ofNat s.dataPoints), ("computed_at", s.computedAt.toJson)]

/-- The snapshot a document denotes. -/
def Snapshot.ofJson? (document : Json) : Option Snapshot := do
  let fields ← document.fields? ["symbol", "values", "data_points", "computed_at"]
  let symbol ← required fields "symbol" text?
  let readings ← required fields "values" Readings.ofJson?
  let dataPoints ← required fields "data_points" count?
  let computedAt ← required fields "computed_at" Timestamp.ofJson?
  some ⟨symbol, readings, dataPoints, computedAt⟩

/-! ### Decisions and signals -/

/-- A decision as a document. -/
def Decision.toJson (d : Decision) : Json :=
  .ofFields [("symbol", .ofText d.symbol), ("action", .ofText d.action.name),
    ("confidence", .ofFloat d.confidence), ("reasons", .ofTexts d.reasons),
    ("source", .ofText d.source.name), ("produced_at", d.producedAt.toJson)]

/-- The decision a document denotes. -/
def Decision.ofJson? (document : Json) : Option Decision := do
  let fields ← document.fields?
    ["symbol", "action", "confidence", "reasons", "source", "produced_at"]
  let symbol ← required fields "symbol" text?
  let action ← required fields "action" Action.ofJson?
  let confidence ← required fields "confidence" float?
  let reasons ← required fields "reasons" (list? text?)
  let source ← required fields "source" Origin.ofJson?
  let producedAt ← required fields "produced_at" Timestamp.ofJson?
  some ⟨symbol, action, confidence, reasons, source, producedAt⟩

/-- A signal as a document. -/
def Signal.toJson (s : Signal) : Json :=
  .ofFields [("symbol", .ofText s.symbol), ("market", .ofText s.market),
    ("action", .ofText s.action.name), ("strength", .ofFloat s.strength),
    ("confidence", .ofFloat s.confidence), ("reasons", .ofTexts s.reasons),
    ("source", .ofText s.source.name), ("produced_at", s.producedAt.toJson)]

/-- The names of a signal's fields. -/
def Signal.fieldNames : List String :=
  ["symbol", "market", "action", "strength", "confidence", "reasons", "source", "produced_at"]

/-- The signal a document denotes. -/
def Signal.ofJson? (document : Json) : Option Signal := do
  let fields ← document.fields? Signal.fieldNames
  let symbol ← required fields "symbol" text?
  let market ← required fields "market" text?
  let action ← required fields "action" Action.ofJson?
  let strength ← required fields "strength" float?
  let confidence ← required fields "confidence" float?
  let reasons ← required fields "reasons" (list? text?)
  let source ← required fields "source" Origin.ofJson?
  let producedAt ← required fields "produced_at" Timestamp.ofJson?
  some ⟨symbol, market, action, strength, confidence, reasons, source, producedAt⟩

/-- Signals as a document. -/
def signalsJson (signals : List Signal) : Json :=
  .array (signals.map Signal.toJson)

/-- The signals a document denotes. -/
def signalsOfJson? (document : Json) : Option (List Signal) :=
  document.list? Signal.ofJson?

/-! ### Requests -/

/-- Metadata as a document. -/
def metadataJson (metadata : Keyed Json) : Json :=
  .ofFields metadata.entries

/-- A request as a document. -/
def DecisionRequest.toJson (r : DecisionRequest) : Json :=
  .ofFields [("symbol", .ofText r.symbol), ("market", .ofText r.market),
    ("price", r.price.toJson), ("indicators", r.indicators.toJson),
    ("metadata", metadataJson r.metadata)]

/-- The request a document denotes; metadata may be left out. -/
def DecisionRequest.ofJson? (document : Json) : Option DecisionRequest := do
  let fields ← document.fields? ["symbol", "market", "price", "indicators", "metadata"]
  let symbol ← required fields "symbol" text?
  let market ← required fields "market" text?
  let price ← required fields "price" Bar.ofJson?
  let indicators ← required fields "indicators" Snapshot.ofJson?
  let metadata ← optional fields "metadata" (members? 1) .empty
  some ⟨symbol, market, price, indicators, metadata⟩

end MarketSignals
