import MarketSignals.Pipeline.Cycle
import MarketSignals.Pipeline.World

/-!
# Delivery

What a queue learns about an event it delivered: it is done with, or to be tried again. Events
without sense are done with. Events that a stage publishes are delivered in turn until none is
left.
-/

namespace MarketSignals

/-- What becomes of a delivered event. -/
inductive Verdict where
  /-- The event is done with. -/
  | acknowledged
  /-- The event is to be delivered again. -/
  | retry (error : PipelineError)
deriving DecidableEq

namespace Pipeline

/-- Runs the stage of an event for the queue that delivered it. -/
def deliver (config : Config) (event : Event) : Process Verdict := do
  match ← (handle config event).run with
  | .ok _ => pure .acknowledged
  | .error error =>
    if error.isRetryable then do
      Process.perform (.record (.stageFailures event.stage.queue 1))
      pure (.retry error)
    else do
      Process.perform (.record (.malformedEvents 1))
      pure .acknowledged

/-- Runs a process for each event in turn. -/
def forEach {α : Type} (process : Event → Process α) : List Event → Process (List (Event × α))
  | [] => pure []
  | event :: rest => do
    let result ← process event
    let results ← forEach process rest
    pure ((event, result) :: results)

end Pipeline

namespace World

/-- The published events, and the world with none. -/
def drain (w : World) : List Event × World :=
  (w.log, { w with log := [] })

/-- Takes the published events and runs a process for each, again and again until none is left or
at least `most` were taken; the results are listed with their events. -/
def drainWith {α : Type} (process : Event → Process α) (w : World) (most : Nat) :
    List (Event × α) × World :=
  go most w most []
where
  /-- Goes on with what was taken so far, for at most as many rounds as there may be events. -/
  go (most : Nat) (w : World) : Nat → List (Event × α) → List (Event × α) × World
    | 0, results => (results, w)
    | rounds + 1, results =>
      let (events, w) := w.drain
      if events.isEmpty then (results, w)
      else
        let (handled, w) := w.after (Pipeline.forEach process events)
        let results := results ++ handled
        if most ≤ results.length then (results, w) else go most w rounds results

end World

end MarketSignals
