import MarketSignals.Decision.Source
import MarketSignals.Metrics.Basic
import MarketSignals.Pipeline.Error

/-!
# Processes

A process is what a stage does, as data: it is done with a result, or it makes a call and goes on
with the answer. Each call is one step that nothing else can come between, so processes can be run
alone or interleaved, and over any surroundings that answer the calls.

## Main results

* `Process.run_bind` — running one process after another is running both in turn.
-/

namespace MarketSignals

/-- A step that a process takes outside itself. -/
inductive Call where
  /-- Ask the store. -/
  | store (query : Store.Query)
  /-- Ask the cache. -/
  | cache (query : Cache.Query)
  /-- Publish an event. -/
  | publish (event : Event)
  /-- Ask the primary source of decisions, if there is one. -/
  | consult (request : DecisionRequest)
  /-- Read the clock. -/
  | now
  /-- Tell the metrics. -/
  | record (observation : Observation)

/-- What a call is answered with. -/
@[reducible] def Call.Answer : Call → Type
  | .store query => Except StoreError query.Answer
  | .cache query => Except CacheError query.Answer
  | .publish _ => Except PublishError Unit
  | .consult _ => Option (Origin × MarketSignals.Answer)
  | .now => Timestamp
  | .record _ => Unit

/-- A process with a result. -/
inductive Process (α : Type) : Type where
  /-- Done. -/
  | done (result : α)
  /-- A call, and how to go on with each answer to it. -/
  | call (call : Call) (next : call.Answer → Process α)

namespace Process

variable {α β : Type}

/-- Goes on with the result of a process. -/
def andThen : Process α → (α → Process β) → Process β
  | .done result, next => next result
  | .call c step, next => .call c fun answer => (step answer).andThen next

instance : Monad Process where
  pure := .done
  bind := andThen

@[simp] theorem pure_eq (a : α) : (pure a : Process α) = .done a :=
  rfl

@[simp] theorem done_bind (a : α) (next : α → Process β) : (Process.done a >>= next) = next a :=
  rfl

@[simp] theorem call_bind (c : Call) (step : c.Answer → Process α) (next : α → Process β) :
    (Process.call c step >>= next) = .call c fun answer => step answer >>= next :=
  rfl

theorem bind_done (p : Process α) : (p >>= Process.done) = p := by
  induction p with
  | done a => rfl
  | call c step ih => simp [ih]

theorem bind_assoc {γ : Type} (p : Process α) (f : α → Process β) (g : β → Process γ) :
    (p >>= f >>= g) = (p >>= fun a => f a >>= g) := by
  induction p with
  | done a => rfl
  | call c step ih => simp [ih]

instance : LawfulMonad Process :=
  LawfulMonad.mk' Process bind_done (fun _ _ => rfl) bind_assoc

/-- A process that makes one call. -/
def perform (c : Call) : Process c.Answer :=
  .call c .done

/-- Runs a process in surroundings that answer one call after the other. -/
def run {σ : Type} (answer : σ → (call : Call) → call.Answer × σ) : Process α → σ → α × σ
  | .done result, s => (result, s)
  | .call c step, s => (step (answer s c).1).run answer (answer s c).2

/-- Running one process after another is running both in turn. -/
theorem run_bind {σ : Type} (answer : σ → (call : Call) → call.Answer × σ) (p : Process α)
    (f : α → Process β) (s : σ) :
    (p >>= f).run answer s = (f (p.run answer s).1).run answer (p.run answer s).2 := by
  induction p generalizing s with
  | done a => rfl
  | call c step ih => exact ih _ _

end Process

/-- A process that may end with a failure of the pipeline. -/
abbrev Attempt (α : Type) : Type :=
  ExceptT PipelineError Process α

namespace Attempt

/-- Asks the store. -/
def store (query : Store.Query) : Attempt query.Answer :=
  ExceptT.mk do return (← Process.perform (.store query)).mapError .store

/-- Asks the cache. -/
def cache (query : Cache.Query) : Attempt query.Answer :=
  ExceptT.mk do return (← Process.perform (.cache query)).mapError .cache

/-- The price the cache holds; none where the cache fails. -/
def cachedPrice (symbol : String) : Attempt (Option Bar) :=
  ExceptT.lift do return (← Process.perform (.cache (.price symbol))).toOption.join

/-- The signals the cache holds; none where the cache fails. -/
def cachedSignals (symbol : String) : Attempt (Option (List Signal)) :=
  ExceptT.lift do return (← Process.perform (.cache (.signals symbol))).toOption.join

/-- Publishes an event. -/
def publish (event : Event) : Attempt Unit :=
  ExceptT.mk do return (← Process.perform (.publish event)).mapError .publish

/-- Tells the metrics. -/
def record (observation : Observation) : Attempt Unit :=
  ExceptT.lift (Process.perform (.record observation))

/-- Refuses an event. -/
def refuse {α : Type} (cause : Malformed) : Attempt α :=
  throw (.malformed cause)

end Attempt

end MarketSignals
