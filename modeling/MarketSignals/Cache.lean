import MarketSignals.Config
import MarketSignals.Signal

/-!
# The cache

The latest price, the snapshot and the recent signals of each instrument, each kind with a
lifetime of its own. An entry is there until the instant its lifetime ends; a later write replaces
it, and all entries of an instrument may be dropped at once.

`Cache.Query` lists what may be asked of a cache and `Cache.Query.Answer` what comes back.

## Main results

* `Slots.get?_put`, `Slots.get?_drop` — what each operation does to every name at every instant.
-/

namespace MarketSignals

/-- Why a cache does not answer. -/
inductive CacheError where
  /-- The cache server cannot be reached or refused a command. -/
  | server (detail : String)
  /-- A value could not be written as a document. -/
  | serialization (detail : String)
deriving DecidableEq

/-- The message about a failure of a cache. -/
def CacheError.message : CacheError → String
  | .server detail => "redis error: " ++ detail
  | .serialization detail => "serialization error: " ++ detail

/-- A value with the instant at which it is gone. Instants are counted in nanoseconds. -/
structure Entry (α : Type) where
  /-- The value. -/
  value : α
  /-- The first instant at which the value is gone. -/
  expiresAt : Nat

/-- Whether a value is still there. -/
def Entry.isLive {α : Type} (entry : Entry α) (instant : Nat) : Bool :=
  instant < entry.expiresAt

/-- The entries of one kind, by symbol. -/
abbrev Slots (α : Type) : Type :=
  Keyed (Entry α)

namespace Slots

variable {α : Type}

/-- The value of a symbol that is there at an instant. -/
def get? (slots : Slots α) (instant : Nat) (symbol : String) : Option α :=
  match Keyed.get? slots symbol with
  | some entry => if entry.isLive instant then some entry.value else none
  | none => none

/-- Keeps a value for a symbol from an instant on. -/
def put (slots : Slots α) (instant : Nat) (lifetime : Span) (symbol : String) (value : α) :
    Slots α :=
  Keyed.insert slots symbol ⟨value, instant + lifetime.nanos⟩

/-- Drops what is kept for a symbol. -/
def drop (slots : Slots α) (symbol : String) : Slots α :=
  Keyed.erase slots symbol

/-- How many values are there at an instant. -/
def size (slots : Slots α) (instant : Nat) : Nat :=
  (Keyed.values slots).countP fun entry => entry.isLive instant

/-- A value that is put is there for its lifetime and then nothing is; other symbols keep theirs. -/
theorem get?_put (slots : Slots α) (start instant : Nat) (lifetime : Span) (name symbol : String)
    (value : α) :
    (slots.put start lifetime name value).get? instant symbol =
      if name = symbol then if instant < start + lifetime.nanos then some value else none
      else slots.get? instant symbol := by
  unfold get? put
  rw [Keyed.get?_insert]
  by_cases h : name = symbol <;> simp [h, Entry.isLive]

/-- Nothing is there for a symbol that was dropped; other symbols keep theirs. -/
theorem get?_drop (slots : Slots α) (instant : Nat) (name symbol : String) :
    (slots.drop name).get? instant symbol =
      if name = symbol then none else slots.get? instant symbol := by
  unfold get? drop
  rw [Keyed.get?_erase]
  by_cases h : name = symbol <;> simp [h]

end Slots

/-- Everything cached. -/
structure Cache where
  /-- How long entries live. -/
  ttl : CacheTtl := {}
  /-- The latest prices. -/
  prices : Slots Bar := .empty
  /-- The snapshots. -/
  snapshots : Slots Snapshot := .empty
  /-- The recent signals, the newest first. -/
  signals : Slots (List Signal) := .empty

namespace Cache

instance : Inhabited Cache :=
  ⟨{}⟩

/-- Keeps a bar as the latest price of its symbol. -/
def setPrice (c : Cache) (instant : Nat) (bar : Bar) : Cache :=
  { c with prices := c.prices.put instant c.ttl.price bar.symbol bar }

/-- Keeps a snapshot for its symbol. -/
def setSnapshot (c : Cache) (instant : Nat) (snapshot : Snapshot) : Cache :=
  { c with snapshots := c.snapshots.put instant c.ttl.snapshot snapshot.symbol snapshot }

/-- Keeps the recent signals of a symbol. -/
def setSignals (c : Cache) (instant : Nat) (symbol : String) (signals : List Signal) : Cache :=
  { c with signals := c.signals.put instant c.ttl.signals symbol signals }

/-- Drops everything kept for a symbol. -/
def invalidate (c : Cache) (symbol : String) : Cache :=
  { c with
    prices := c.prices.drop symbol
    snapshots := c.snapshots.drop symbol
    signals := c.signals.drop symbol }

/-- How many values of all kinds are there at an instant. -/
def size (c : Cache) (instant : Nat) : Nat :=
  c.prices.size instant + c.snapshots.size instant + c.signals.size instant

/-! ### Queries -/

/-- What may be asked of a cache. -/
inductive Query where
  | price (symbol : String)
  | snapshot (symbol : String)
  | signals (symbol : String)
  | setPrice (bar : Bar)
  | setSnapshot (snapshot : Snapshot)
  | setSignals (symbol : String) (signals : List Signal)
  | invalidate (symbol : String)

/-- The kinds of query. -/
inductive Operation where
  | price
  | snapshot
  | signals
  | setPrice
  | setSnapshot
  | setSignals
  | invalidate
deriving DecidableEq

namespace Query

/-- The kind of a query. -/
def operation : Query → Operation
  | .price _ => .price
  | .snapshot _ => .snapshot
  | .signals _ => .signals
  | .setPrice _ => .setPrice
  | .setSnapshot _ => .setSnapshot
  | .setSignals _ _ => .setSignals
  | .invalidate _ => .invalidate

/-- What a query is answered with. -/
@[reducible] def Answer : Query → Type
  | .price _ => Option Bar
  | .snapshot _ => Option Snapshot
  | .signals _ => Option (List Signal)
  | _ => Unit

end Query

/-- The cache's answer to a query at an instant, and the cache after it. -/
def ask (c : Cache) (instant : Nat) : (query : Query) → query.Answer × Cache
  | .price symbol => (c.prices.get? instant symbol, c)
  | .snapshot symbol => (c.snapshots.get? instant symbol, c)
  | .signals symbol => (c.signals.get? instant symbol, c)
  | .setPrice bar => ((), c.setPrice instant bar)
  | .setSnapshot snapshot => ((), c.setSnapshot instant snapshot)
  | .setSignals symbol signals => ((), c.setSignals instant symbol signals)
  | .invalidate symbol => ((), c.invalidate symbol)

end Cache

end MarketSignals
