import MarketSignals.Json.Printer
import MarketSignals.Json.Shape
import MarketSignals.Store

/-!
# Statements for the database

The tables that hold everything recorded, and the statements that carry out the queries of the
store. Every write is an insertion; a bar may be inserted twice, and readers keep the first. Times
are sent in whole microseconds, counts as signed integers of 64 bits.
-/

namespace MarketSignals

/-- A value in a column or in the place of a parameter. -/
inductive SqlValue where
  /-- Nothing. -/
  | null
  /-- A text. -/
  | text (value : String)
  /-- A number. -/
  | double (value : Float)
  /-- An integer of 64 bits. -/
  | long (value : Int64)
  /-- An integer of 32 bits. -/
  | int (value : Int32)
  /-- A truth value. -/
  | boolean (value : Bool)
  /-- The microseconds from 1970-01-01 to a point in time. -/
  | timestamp (micros : Int)
deriving DecidableEq

/-- A statement. -/
structure Statement where
  /-- The text. -/
  sql : String
  /-- The parameters; a statement that cannot take any is sent without. -/
  params : Option (List SqlValue)
deriving DecidableEq

/-- The second the database counts from: 2000-01-01 00:00:00 UTC. -/
def databaseEpoch : Int := 946684800

/-- The microseconds from 1970-01-01 to a point in time. What is left of a microsecond is cut
towards the time the database counts from. -/
def Timestamp.micros (t : Timestamp) : Int :=
  (t.nanos - databaseEpoch * nanosPerSecond).tdiv 1000 + databaseEpoch * 1000000

/-- The point in time some microseconds from 1970-01-01, if there is one. -/
def Timestamp.ofMicros? (micros : Int) : Option Timestamp :=
  Timestamp.ofNanos? (micros * 1000)

namespace Database

/-- The statements that make the tables. They bypass the log of writes, so that a stage reads what
another has just written. -/
def schema : List Statement :=
  [⟨"CREATE TABLE IF NOT EXISTS instruments ( created_at TIMESTAMP, symbol SYMBOL, " ++
      "market SYMBOL, name STRING, active BOOLEAN ) TIMESTAMP(created_at) PARTITION BY YEAR " ++
      "BYPASS WAL", some []⟩,
    ⟨"CREATE TABLE IF NOT EXISTS prices ( timestamp TIMESTAMP, symbol SYMBOL, market SYMBOL, " ++
      "open DOUBLE, high DOUBLE, low DOUBLE, close DOUBLE, volume LONG, trade_amount LONG ) " ++
      "TIMESTAMP(timestamp) PARTITION BY MONTH BYPASS WAL", some []⟩,
    ⟨"CREATE TABLE IF NOT EXISTS indicators ( timestamp TIMESTAMP, symbol SYMBOL, " ++
      "indicator_name SYMBOL, value DOUBLE, data_points INT ) TIMESTAMP(timestamp) " ++
      "PARTITION BY MONTH BYPASS WAL", some []⟩,
    ⟨"CREATE TABLE IF NOT EXISTS signals ( timestamp TIMESTAMP, symbol SYMBOL, market SYMBOL, " ++
      "action SYMBOL, strength DOUBLE, confidence DOUBLE, source SYMBOL, reasons_json STRING ) " ++
      "TIMESTAMP(timestamp) PARTITION BY DAY BYPASS WAL", some []⟩]

/-- The largest number of rows a statement can ask for. -/
def maxRows : Nat := Nat.pow 2 64 - 1

/-- The statement that selects the newest bars of a symbol, the newest first: twice as many as
asked for, so that bars inserted twice do not shorten the answer. -/
def selectPrices (symbol : String) (limit : Nat) : Statement :=
  ⟨"SELECT timestamp, symbol, market, open, high, low, close, volume, trade_amount FROM prices " ++
    "WHERE symbol = $1 ORDER BY timestamp DESC LIMIT " ++ toString (min (limit * 2) maxRows),
    some [.text symbol]⟩

/-- The columns of a bar. -/
def barColumns (b : Bar) : List SqlValue :=
  [.timestamp b.time.micros, .text b.symbol, .text b.market, .double b.opening, .double b.high,
    .double b.low, .double b.close, .long b.volume.toInt64, .long b.tradeAmount.toInt64]

/-- The text of a signal's reasons in its column. -/
def reasonsText (reasons : List String) : String :=
  (Json.ofTexts reasons).text

/-- The columns of a signal. -/
def signalColumns (s : Signal) : List SqlValue :=
  [.timestamp s.producedAt.micros, .text s.symbol, .text s.market, .text s.action.name,
    .double s.strength, .double s.confidence, .text s.source.name, .text (reasonsText s.reasons)]

/-- The statement that drops the partitions of a table from before a time. -/
def dropBefore (cutoff : Timestamp) (table : String) : Statement :=
  ⟨"ALTER TABLE " ++ table ++ " DROP PARTITION WHERE timestamp < '" ++
    String.ofList cutoff.literal ++ "'", none⟩

/-- The statements that carry out a query at a time. -/
def statements (now : Timestamp) : Store.Query → List Statement
  | .findInstrument symbol =>
    [⟨"SELECT symbol, market, name, active FROM instruments WHERE symbol = $1 " ++
      "LATEST ON created_at PARTITION BY symbol", some [.text symbol]⟩]
  | .activeInstruments =>
    [⟨"SELECT symbol, market, name, active FROM instruments " ++
      "LATEST ON created_at PARTITION BY symbol", some []⟩]
  | .addInstrument i =>
    [⟨"INSERT INTO instruments (created_at, symbol, market, name, active) " ++
      "VALUES ($1, $2, $3, $4, $5)",
      some [.timestamp now.micros, .text i.symbol, .text i.market, .text i.name,
        .boolean i.active]⟩]
  | .recentPrices symbol limit => [selectPrices symbol limit]
  | .latestPrice symbol => [selectPrices symbol 1]
  | .appendPrice bar =>
    [⟨"INSERT INTO prices (timestamp, symbol, market, open, high, low, close, volume, " ++
      "trade_amount) VALUES ($1, $2, $3, $4, $5, $6, $7, $8, $9)", some (barColumns bar)⟩]
  | .appendSnapshot s =>
    s.readings.flat.map fun (name, value) =>
      ⟨"INSERT INTO indicators (timestamp, symbol, indicator_name, value, data_points) " ++
        "VALUES ($1, $2, $3, $4, $5)",
        some [.timestamp s.computedAt.micros, .text s.symbol, .text name, .double value,
          .int (Int32.ofInt s.dataPoints)]⟩
  | .appendSignal signal =>
    [⟨"INSERT INTO signals (timestamp, symbol, market, action, strength, confidence, source, " ++
      "reasons_json) VALUES ($1, $2, $3, $4, $5, $6, $7, $8)", some (signalColumns signal)⟩]
  | .recentSignals symbol limit =>
    [⟨"SELECT timestamp, symbol, market, action, strength, confidence, source, reasons_json " ++
      "FROM signals WHERE symbol = $1 ORDER BY timestamp DESC LIMIT " ++ toString limit,
      some [.text symbol]⟩]
  | .prune cutoff => ["prices", "indicators"].map (dropBefore cutoff)

end Database

end MarketSignals
