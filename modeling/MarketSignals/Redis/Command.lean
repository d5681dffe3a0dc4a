import MarketSignals.Pipeline.Error
import MarketSignals.Wire.Events

/-!
# Redis commands

The commands that the cache and the queues send to a Redis server, and what a server does with
them. Cache entries are documents under a key for their kind and symbol, kept for whole seconds and
one at least. An entry that is no document of its kind counts as absent.
-/

namespace MarketSignals.Redis

/-- The key of an instrument's latest price. -/
def priceKey (symbol : String) : String :=
  "price:" ++ symbol

/-- The key of an instrument's snapshot. -/
def snapshotKey (symbol : String) : String :=
  "indicators:" ++ symbol

/-- The key of an instrument's recent signals. -/
def signalsKey (symbol : String) : String :=
  "signals:" ++ symbol

/-- All keys of an instrument. -/
def instrumentKeys (symbol : String) : List String :=
  [priceKey symbol, snapshotKey symbol, signalsKey symbol]

/-- A command. -/
inductive Command where
  /-- Ask whether the server is there. -/
  | ping
  /-- Read a key. -/
  | get (key : String)
  /-- Write a key for some seconds. -/
  | set (key : String) (seconds : Nat) (value : Json)
  /-- Delete keys. -/
  | del (keys : List String)
  /-- Put a job on the queue of a stage. -/
  | push (stage : Stage) (job : Json)

/-- The keys that a queue consists of. -/
def queueKeys (stage : Stage) : List String :=
  [stage.queue ++ ":data", stage.queue ++ ":active", stage.queue ++ ":signal"]

/-- What a server replies to a command that it carries out. -/
inductive Reply where
  /-- Done. -/
  | done
  /-- The text of a key, if there is one. -/
  | text (value : Option String)

/-! ### A server -/

/-- A text that a server keeps. -/
structure Stored where
  /-- The text. -/
  text : String
  /-- The first instant at which the text is gone, if there is one. -/
  expiresAt : Option Nat := none
deriving DecidableEq

/-- Whether a text is there at an instant. -/
def Stored.isLive (s : Stored) (instant : Nat) : Bool :=
  match s.expiresAt with
  | some expiry => instant < expiry
  | none => true

/-- A server: its texts, and how the next commands fail. -/
structure Server where
  /-- The texts, by key. -/
  data : Keyed Stored := .empty
  /-- For each of the next commands, how it fails, if it does. -/
  failures : List (Option String) := []

namespace Server

/-- The text of a key at an instant. -/
def lookUp (s : Server) (instant : Nat) (key : String) : Option String :=
  ((s.data.get? key).filter (·.isLive instant)).map Stored.text

/-- Writes a key for good. -/
def write (s : Server) (key text : String) : Server :=
  { s with data := s.data.insert key ⟨text, none⟩ }

/-- The keys that are there at an instant, in order. -/
def keys (s : Server) (instant : Nat) : List String :=
  ((s.data.entries.filter fun entry => entry.2.isLive instant).map (·.1)).mergeSort (· ≤ ·)

/-- Carries out a command. -/
def carryOut (s : Server) (instant : Nat) : Command → Reply × Server
  | .ping => (.done, s)
  | .get key => (.text (s.lookUp instant key), s)
  | .set key seconds value =>
    let expiry := instant + (Span.ofSeconds seconds).nanos
    (.done, { s with data := s.data.insert key ⟨value.text, some expiry⟩ })
  | .del keys => (.done, { s with data := keys.foldl Keyed.erase s.data })
  | .push _ _ => (.done, s)

/-- Carries out a command, unless it is to fail. -/
def execute (s : Server) (instant : Nat) (command : Command) : Except String Reply × Server :=
  let ahead := s.failures
  let s := { s with failures := ahead.tail }
  match ahead.head?.join with
  | some reason => (.error reason, s)
  | none => (.ok (s.carryOut instant command).1, (s.carryOut instant command).2)

end Server

/-! ### The cache on a server -/

/-- The whole seconds that an entry is kept for. -/
def seconds (lifetime : Span) : Nat :=
  max lifetime.seconds 1

/-- The command that a query of the cache is sent as. -/
def cacheCommand (ttl : CacheTtl) : Cache.Query → Command
  | .price symbol => .get (priceKey symbol)
  | .snapshot symbol => .get (snapshotKey symbol)
  | .signals symbol => .get (signalsKey symbol)
  | .setPrice bar => .set (priceKey bar.symbol) (seconds ttl.price) bar.toJson
  | .setSnapshot snapshot =>
    .set (snapshotKey snapshot.symbol) (seconds ttl.snapshot) snapshot.toJson
  | .setSignals symbol signals =>
    .set (signalsKey symbol) (seconds ttl.signals) (signalsJson signals)
  | .invalidate symbol => .del (instrumentKeys symbol)

/-- The value of a text, where it is a document of the kind. -/
def valueOf {α : Type} (read : Json → Option α) : Reply → Option α
  | .text (some text) => (Json.read? text.toList).bind read
  | _ => none

/-- What a reply means for the query that it answers. -/
def cacheAnswer (reply : Reply) : (query : Cache.Query) → query.Answer
  | .price _ => valueOf Bar.ofJson? reply
  | .snapshot _ => valueOf Snapshot.ofJson? reply
  | .signals _ => valueOf signalsOfJson? reply
  | .setPrice _ => ()
  | .setSnapshot _ => ()
  | .setSignals _ _ => ()
  | .invalidate _ => ()

/-- The answer to a query of the cache on a server, and the server after it. -/
def askCache (ttl : CacheTtl) (s : Server) (instant : Nat) (query : Cache.Query) :
    Except CacheError query.Answer × Server :=
  match s.execute instant (cacheCommand ttl query) with
  | (.ok reply, s) => (.ok (cacheAnswer reply query), s)
  | (.error reason, s) => (.error (.server reason), s)

/-! ### The queues on a server -/

/-- The command that publishes an event. -/
def publishCommand (event : Event) : Command :=
  .push event.stage event.toJob

/-- Publishes an event on a server. -/
def publish (s : Server) (instant : Nat) (event : Event) : Except PublishError Unit × Server :=
  match s.execute instant (publishCommand event) with
  | (.ok _, s) => (.ok (), s)
  | (.error reason, s) => (.error (.broker event.stage reason), s)

end MarketSignals.Redis
