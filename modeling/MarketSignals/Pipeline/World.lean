import MarketSignals.Pipeline.Process

/-!
# The world of a pipeline

The surroundings in which processes run within one program: a store, a cache, a log of published
events, a source of decisions, metrics and a clock. Store, cache and log may be told to fail at
their next uses; a use that fails does nothing else.
-/

namespace MarketSignals

/-- The failures that lie ahead: for each kind of use, whether its next uses fail, and how. -/
structure Faults where
  /-- The next uses of the store. -/
  store : Store.Operation → List (Option StoreError) := fun _ => []
  /-- The next uses of the cache. -/
  cache : Cache.Operation → List (Option CacheError) := fun _ => []
  /-- The next publications. -/
  publish : List (Option String) := []

namespace Faults

/-- No failures. -/
def none : Faults :=
  {}

/-- The failures with those of one kind of store use replaced. -/
def setStore (f : Faults) (operation : Store.Operation) (ahead : List (Option StoreError)) :
    Faults :=
  { f with store := fun other => if other = operation then ahead else f.store other }

/-- The failures with those of one kind of cache use replaced. -/
def setCache (f : Faults) (operation : Cache.Operation) (ahead : List (Option CacheError)) :
    Faults :=
  { f with cache := fun other => if other = operation then ahead else f.cache other }

end Faults

/-- Time as a program sees it. -/
structure Clock where
  /-- The nanoseconds since the program began. -/
  instant : Nat := 0
  /-- The readings of the clock, the first first. -/
  readings : Nat → Timestamp
  /-- How often the clock was read. -/
  read : Nat := 0

/-- What the clock shows when it is read next. -/
def Clock.now (c : Clock) : Timestamp :=
  c.readings c.read

/-- The clock after it was read. -/
def Clock.tick (c : Clock) : Clock :=
  { c with read := c.read + 1 }

/-- The surroundings of a pipeline. -/
structure World where
  /-- Everything recorded. -/
  store : Store := {}
  /-- Everything cached. -/
  cache : Cache := {}
  /-- The published events, the oldest first. -/
  log : List Event := []
  /-- The primary source of decisions; without one the rules decide. -/
  primary : Option DecisionSource := none
  /-- The requests the primary source was asked. -/
  asked : List DecisionRequest := []
  /-- The metrics, where they are kept. -/
  metrics : Option Metrics := none
  /-- The failures that lie ahead. -/
  faults : Faults := {}
  /-- The clock. -/
  clock : Clock

namespace World

/-- The answer to a query of the store. -/
def askStore (w : World) (query : Store.Query) : Except StoreError query.Answer × World :=
  let ahead := w.faults.store query.operation
  let w := { w with faults := w.faults.setStore query.operation ahead.tail }
  match ahead.head?.join with
  | some error => (.error error, w)
  | none => (.ok (w.store.ask query).1, { w with store := (w.store.ask query).2 })

/-- The answer to a query of the cache. -/
def askCache (w : World) (query : Cache.Query) : Except CacheError query.Answer × World :=
  let ahead := w.faults.cache query.operation
  let w := { w with faults := w.faults.setCache query.operation ahead.tail }
  match ahead.head?.join with
  | some error => (.error error, w)
  | none =>
    (.ok (w.cache.ask w.clock.instant query).1,
      { w with cache := (w.cache.ask w.clock.instant query).2 })

/-- Publishes an event. -/
def publish (w : World) (event : Event) : Except PublishError Unit × World :=
  let ahead := w.faults.publish
  let w := { w with faults := { w.faults with publish := ahead.tail } }
  match ahead.head?.join with
  | some reason => (.error (.broker event.stage reason), w)
  | none => (.ok (), { w with log := w.log ++ [event] })

/-- Asks the primary source of decisions. -/
def consult (w : World) (request : DecisionRequest) : Option (Origin × Answer) × World :=
  match w.primary with
  | none => (none, w)
  | some source =>
    (some (source.origin, source.answer w.asked w.clock.now request),
      { w with asked := w.asked ++ [request], clock := w.clock.tick })

/-- Tells the metrics, where they are kept. -/
def record (w : World) (observation : Observation) : World :=
  { w with metrics := w.metrics.map (·.record observation) }

/-- The answer to a call, and the world after it. -/
def answer (w : World) : (call : Call) → call.Answer × World
  | .store query => w.askStore query
  | .cache query => w.askCache query
  | .publish event => w.publish event
  | .consult request => w.consult request
  | .now => (w.clock.now, { w with clock := w.clock.tick })
  | .record observation => ((), w.record observation)

/-- The result of a process that runs alone, and the world after it. -/
def after {α : Type} (w : World) (process : Process α) : α × World :=
  process.run World.answer w

end World

end MarketSignals
