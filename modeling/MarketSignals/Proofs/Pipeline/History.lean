import MarketSignals.Pipeline.World
import MarketSignals.Proofs.Process.Path
import MarketSignals.Proofs.Store.Queries

/-!
# Histories

What a list of exchanges says about the surroundings: the events that were published in it and the
queries that the store carried out. A call that failed leaves no trace in either. In the world of a
pipeline the log and the store are what the history makes of them.

## Main results

* `World.log_answer`, `World.store_answer`: what one call does to the log and the store.
* `World.log_after`, `World.store_after`: what a process that runs alone does to them.
-/

namespace MarketSignals

namespace Exchange

/-- The event that was published. -/
def published? : Exchange → Option Event
  | ⟨.publish event, .ok ()⟩ => some event
  | _ => none

/-- The query that the store carried out. -/
def stored? : Exchange → Option Store.Query
  | ⟨.store query, .ok _⟩ => some query
  | _ => none

end Exchange

/-- The events that were published, the first first. -/
def published (history : List Exchange) : List Event :=
  history.filterMap Exchange.published?

/-- The queries that the store carried out, the first first. -/
def stored (history : List Exchange) : List Store.Query :=
  history.filterMap Exchange.stored?

@[simp] theorem published_append (t u : List Exchange) :
    published (t ++ u) = published t ++ published u :=
  List.filterMap_append

@[simp] theorem stored_append (t u : List Exchange) : stored (t ++ u) = stored t ++ stored u :=
  List.filterMap_append

@[simp] theorem published_publish_ok (event : Event) (answer : Unit) :
    published [⟨.publish event, .ok answer⟩] = [event] :=
  rfl

@[simp] theorem published_publish_error (event : Event) (e : PublishError) :
    published [⟨.publish event, .error e⟩] = [] :=
  rfl

@[simp] theorem published_store (query : Store.Query) (answer : (Call.store query).Answer) :
    published [⟨.store query, answer⟩] = [] :=
  rfl

@[simp] theorem stored_publish (event : Event) (answer : (Call.publish event).Answer) :
    stored [⟨.publish event, answer⟩] = [] :=
  rfl

@[simp] theorem stored_store_ok (query : Store.Query) (answer : query.Answer) :
    stored [⟨.store query, .ok answer⟩] = [query] :=
  rfl

@[simp] theorem stored_store_error (query : Store.Query) (e : StoreError) :
    stored [⟨.store query, .error e⟩] = [] :=
  rfl

namespace World

/-- The exchanges of a process that runs alone in a world. -/
def trace {α : Type} (w : World) (process : Process α) : List Exchange :=
  process.trace World.answer w

/-- A process that runs alone follows its trace to its result. -/
theorem path_after {α : Type} (w : World) (process : Process α) :
    Process.Path process (w.trace process) (.done (w.after process).1) :=
  Process.path_run World.answer process w

/-- One call adds to the log what it publishes. -/
theorem log_answer (w : World) (call : Call) :
    (w.answer call).2.log = w.log ++ published [⟨call, (w.answer call).1⟩] := by
  cases call with
  | store query =>
      simp only [answer, askStore]
      split <;> simp [published, Exchange.published?]
  | cache query =>
      simp only [answer, askCache]
      split <;> simp [published, Exchange.published?]
  | publish event =>
      simp only [answer, publish]
      split <;> simp [published, Exchange.published?]
  | consult request =>
      simp only [answer, consult]
      split <;> simp [published, Exchange.published?]
  | now => simp [answer, published, Exchange.published?]
  | record observation => simp [answer, record, published, Exchange.published?]

/-- The store carries out the one call that is answered with success. -/
theorem store_answer (w : World) (call : Call) :
    (w.answer call).2.store = w.store.carryOut (stored [⟨call, (w.answer call).1⟩]) := by
  cases call with
  | store query =>
      simp only [answer, askStore]
      split <;> rfl
  | cache query =>
      simp only [answer, askCache]
      split <;> rfl
  | publish event =>
      simp only [answer, publish]
      split <;> rfl
  | consult request =>
      simp only [answer, consult]
      split <;> rfl
  | now => rfl
  | record observation => rfl

/-- A process that runs alone adds to the log what it publishes. -/
theorem log_after {α : Type} (w : World) (process : Process α) :
    (w.after process).2.log = w.log ++ published (w.trace process) := by
  refine Process.view_run World.answer World.log (fun log t => log ++ published t)
    (fun log => List.append_nil log) (fun log x t => ?_) log_answer process w
  rw [List.append_assoc, ← published_append, List.singleton_append]

/-- A process that runs alone has the store carry out what it asks. -/
theorem store_after {α : Type} (w : World) (process : Process α) :
    (w.after process).2.store = w.store.carryOut (stored (w.trace process)) := by
  refine Process.view_run World.answer World.store (fun s t => s.carryOut (stored t))
    (fun s => rfl) (fun s x t => ?_) store_answer process w
  rw [← Store.carryOut_append, ← stored_append, List.singleton_append]

end World

end MarketSignals
