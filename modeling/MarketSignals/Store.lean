import MarketSignals.Indicator.Compute
import MarketSignals.Signal

/-!
# The store

The source of truth for instruments, prices, snapshots and signals. Prices are keyed by instrument
and time, and the first write of a key stays; snapshots and signals are logs. Old prices and
snapshots may be dropped, signals never.

`Store.Query` lists what may be asked of a store and `Store.Query.Answer` what comes back, so that
other keepers of the same data can answer the same queries.

## Main results

* `mem_insertBar_iff`, `insertBar_of_mem` — an insertion adds a bar exactly where its time is new.
-/

namespace MarketSignals

/-- Why a store does not answer. -/
inductive StoreError where
  /-- The database refused a statement or returned something else than asked for. -/
  | database (detail : String)
  /-- A value could not be written as a document or read from one. -/
  | serialization (detail : String)
  /-- There is no connection. -/
  | notConnected
  /-- A row holds something that is no value of its column. -/
  | invalidRow (detail : String)
deriving DecidableEq

/-- The message about a failure of a store. -/
def StoreError.message : StoreError → String
  | .database detail => "database error: " ++ detail
  | .serialization detail => "serialization error: " ++ detail
  | .notConnected => "store not connected"
  | .invalidRow detail => "invalid row: " ++ detail

/-- Inserts a bar into a series ordered by time. A bar of the same time that is there already
stays. -/
def insertBar (bar : Bar) : List Bar → List Bar
  | [] => [bar]
  | first :: rest =>
    if bar.time < first.time then bar :: first :: rest
    else if bar.time = first.time then first :: rest
    else first :: insertBar bar rest

/-- Everything recorded. -/
structure Store where
  /-- The instruments, by symbol. -/
  instruments : Keyed Instrument := .empty
  /-- The bars of each symbol, ordered by time. -/
  prices : Keyed (List Bar) := .empty
  /-- The snapshots of all symbols, the oldest first. -/
  snapshots : List Snapshot := []
  /-- The signals of all symbols, the oldest first. -/
  signals : List Signal := []

namespace Store

instance : Inhabited Store :=
  ⟨{}⟩

/-- The instrument of a symbol. -/
def findInstrument (s : Store) (symbol : String) : Option Instrument :=
  s.instruments.get? symbol

/-- Adds an instrument, or replaces the one of its symbol. -/
def addInstrument (s : Store) (instrument : Instrument) : Store :=
  { s with instruments := s.instruments.insert instrument.symbol instrument }

/-- The order of instruments by symbol. -/
def symbolOrder (a b : Instrument) : Bool :=
  a.symbol ≤ b.symbol

/-- The active ones among instruments, in the order of their symbols. -/
def activeAmong (instruments : List Instrument) : List Instrument :=
  (instruments.filter Instrument.active).mergeSort symbolOrder

/-- The active instruments, in the order of their symbols. -/
def activeInstruments (s : Store) : List Instrument :=
  activeAmong s.instruments.values

/-- The bars of a symbol, the oldest first. -/
def bars (s : Store) (symbol : String) : List Bar :=
  (s.prices.get? symbol).getD []

/-- The newest bars of a symbol, at most `limit`, the oldest first. -/
def recentPrices (s : Store) (symbol : String) (limit : Nat) : List Bar :=
  Series.trailing limit (s.bars symbol)

/-- The newest bar of a symbol. -/
def latestPrice (s : Store) (symbol : String) : Option Bar :=
  (s.bars symbol).getLast?

/-- How many bars of a symbol there are. -/
def priceCount (s : Store) (symbol : String) : Nat :=
  (s.bars symbol).length

/-- Adds a bar, unless there is one of its symbol and time. -/
def appendPrice (s : Store) (bar : Bar) : Store :=
  { s with prices := s.prices.insert bar.symbol (insertBar bar (s.bars bar.symbol)) }

/-- Adds a snapshot. -/
def appendSnapshot (s : Store) (snapshot : Snapshot) : Store :=
  { s with snapshots := s.snapshots ++ [snapshot] }

/-- Adds a signal. -/
def appendSignal (s : Store) (signal : Signal) : Store :=
  { s with signals := s.signals ++ [signal] }

/-- The snapshots of a symbol, the oldest first. -/
def snapshotsOf (s : Store) (symbol : String) : List Snapshot :=
  s.snapshots.filter (·.symbol = symbol)

/-- The signals of a symbol in the order they were added. -/
def signalsOf (s : Store) (symbol : String) : List Signal :=
  s.signals.filter (·.symbol = symbol)

/-- The order of signals from the newest to the oldest. -/
def newestFirst (a b : Signal) : Bool :=
  b.producedAt ≤ a.producedAt

/-- The newest signals of a symbol, at most `limit`, the newest first and those of one time in the
order they were added. -/
def recentSignals (s : Store) (symbol : String) (limit : Nat) : List Signal :=
  ((s.signalsOf symbol).mergeSort newestFirst).take limit

/-- Drops the bars and snapshots from before a time. -/
def prune (s : Store) (cutoff : Timestamp) : Store :=
  { s with
    prices := s.prices.mapValues fun bars => bars.filter (cutoff ≤ ·.time)
    snapshots := s.snapshots.filter (cutoff ≤ ·.computedAt) }

/-! ### Queries -/

/-- What may be asked of a store. -/
inductive Query where
  | findInstrument (symbol : String)
  | activeInstruments
  | addInstrument (instrument : Instrument)
  | recentPrices (symbol : String) (limit : Nat)
  | latestPrice (symbol : String)
  | appendPrice (bar : Bar)
  | appendSnapshot (snapshot : Snapshot)
  | appendSignal (signal : Signal)
  | recentSignals (symbol : String) (limit : Nat)
  | prune (cutoff : Timestamp)

/-- The kinds of query. -/
inductive Operation where
  | findInstrument
  | activeInstruments
  | addInstrument
  | recentPrices
  | latestPrice
  | appendPrice
  | appendSnapshot
  | appendSignal
  | recentSignals
  | prune
deriving DecidableEq

namespace Query

/-- The kind of a query. -/
def operation : Query → Operation
  | .findInstrument _ => .findInstrument
  | .activeInstruments => .activeInstruments
  | .addInstrument _ => .addInstrument
  | .recentPrices _ _ => .recentPrices
  | .latestPrice _ => .latestPrice
  | .appendPrice _ => .appendPrice
  | .appendSnapshot _ => .appendSnapshot
  | .appendSignal _ => .appendSignal
  | .recentSignals _ _ => .recentSignals
  | .prune _ => .prune

/-- What a query is answered with. -/
@[reducible] def Answer : Query → Type
  | .findInstrument _ => Option Instrument
  | .activeInstruments => List Instrument
  | .recentPrices _ _ => List Bar
  | .latestPrice _ => Option Bar
  | .recentSignals _ _ => List Signal
  | _ => Unit

end Query

/-- The store's answer to a query, and the store after it. -/
def ask (s : Store) : (query : Query) → query.Answer × Store
  | .findInstrument symbol => (s.findInstrument symbol, s)
  | .activeInstruments => (s.activeInstruments, s)
  | .addInstrument instrument => ((), s.addInstrument instrument)
  | .recentPrices symbol limit => (s.recentPrices symbol limit, s)
  | .latestPrice symbol => (s.latestPrice symbol, s)
  | .appendPrice bar => ((), s.appendPrice bar)
  | .appendSnapshot snapshot => ((), s.appendSnapshot snapshot)
  | .appendSignal signal => ((), s.appendSignal signal)
  | .recentSignals symbol limit => (s.recentSignals symbol limit, s)
  | .prune cutoff => ((), s.prune cutoff)

end Store

/-! ### The series of one symbol -/

/-- Where a bar of the same time is there already, an insertion changes nothing. -/
theorem insertBar_of_mem {bar : Bar} {bars : List Bar}
    (ordered : bars.Pairwise (·.time < ·.time)) (known : ∃ b ∈ bars, b.time = bar.time) :
    insertBar bar bars = bars := by
  induction bars with
  | nil => simp at known
  | cons first rest ih =>
    obtain ⟨b, mem, same⟩ := known
    rw [List.pairwise_cons] at ordered
    rcases List.mem_cons.mp mem with rfl | later
    · simp [insertBar, same, Timestamp.lt_irrefl]
    · have after := ordered.1 b later
      rw [same] at after
      have notBefore : ¬ bar.time < first.time := Timestamp.lt_asymm after
      have notSame : bar.time ≠ first.time := (Timestamp.ne_of_lt after).symm
      simp [insertBar, notBefore, notSame, ih ordered.2 ⟨b, later, same⟩]

/-- Where no bar of its time is there, an insertion adds the bar. -/
theorem mem_insertBar_iff {bar b : Bar} {bars : List Bar}
    (fresh : ∀ b ∈ bars, b.time ≠ bar.time) : b ∈ insertBar bar bars ↔ b = bar ∨ b ∈ bars := by
  induction bars with
  | nil => simp [insertBar]
  | cons first rest ih =>
    have notSame : bar.time ≠ first.time := fun e => fresh first (by simp) e.symm
    unfold insertBar
    split
    · simp
    · simp [ih fun b mem => fresh b (by simp [mem])]
      grind

end MarketSignals
