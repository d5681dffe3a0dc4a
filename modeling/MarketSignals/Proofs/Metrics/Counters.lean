import Mathlib.Algebra.Ring.Nat
import MarketSignals.Proofs.Pipeline.Running

/-!
# Counters

The metrics only count up, and each observation adds to one counter at most. So what the counters
show is what was observed, whoever observed it and in whatever order, but counted in 64 bits. In
the world of a pipeline the metrics are what the history makes of them, where they are kept at all.

## Main results

* `Metrics.count_record`, `Metrics.count_recordAll`: what observations do to every counter.
* `World.metrics_answer`, `World.metrics_after`, `Running.metrics_of_reachable`: metrics follow from
  the history.
* `added_perm`: the order of a history does not matter to what it adds.
-/

namespace MarketSignals

/-- A number that the metrics count up. -/
inductive Counter where
  /-- Handled events of a queue. -/
  | stageEvents (queue : String)
  /-- Handled events of a queue that are to be tried again. -/
  | stageFailures (queue : String)
  /-- Cycles that ended because there were too few bars. -/
  | insufficientData
  /-- Events that were dropped as malformed. -/
  | malformedEvents
  /-- Decisions of the rules in place of a source that failed. -/
  | fallbacks
  /-- Stored signals of an origin. -/
  | signals (origin : String)
  /-- How often it was measured how long the source of decisions took. -/
  | timings
deriving DecidableEq

/-- What a counter shows. -/
def Metrics.count (m : Metrics) : Counter → UInt64
  | .stageEvents queue => m.stageEvents.count queue
  | .stageFailures queue => m.stageFailures.count queue
  | .insufficientData => m.insufficientData
  | .malformedEvents => m.malformedEvents
  | .fallbacks => m.fallbacks
  | .signals origin => m.signals.count origin
  | .timings => m.decisionSeconds.count

namespace Observation

/-- The counter that an observation adds to, and how much. -/
def entry? : Observation → Option (Counter × UInt64)
  | .databaseConnected _ | .cacheConnected _ => none
  | .stageEvents queue amount => some (.stageEvents queue, amount)
  | .stageFailures queue amount => some (.stageFailures queue, amount)
  | .insufficientData amount => some (.insufficientData, amount)
  | .malformedEvents amount => some (.malformedEvents, amount)
  | .fallbacks amount => some (.fallbacks, amount)
  | .signals origin amount => some (.signals origin, amount)
  | .decisionSeconds _ => some (.timings, 1)

/-- How much an observation adds to a counter. -/
def adds (observation : Observation) (counter : Counter) : Nat :=
  match observation.entry? with
  | some (other, amount) => if other = counter then amount.toNat else 0
  | none => 0

end Observation

namespace Metrics

/-- A counter that is not there yet shows zero. -/
@[simp] theorem count_fresh (counter : Counter) : ({} : Metrics).count counter = 0 := by
  cases counter <;> rfl

/-- Each counter grows by what the observation adds to it. -/
theorem count_record (m : Metrics) (observation : Observation) (counter : Counter) :
    (m.record observation).count counter =
      m.count counter + .ofNat (observation.adds counter) := by
  cases observation with
  | databaseConnected _ | cacheConnected _ =>
      cases counter <;> simp [record, count, Observation.adds, Observation.entry?]
  | stageEvents queue amount | stageFailures queue amount | signals queue amount =>
      cases counter with
      | stageEvents name | stageFailures name | signals name =>
          by_cases hname : queue = name <;>
            simp [record, count, Observation.adds, Observation.entry?, Tally.count_add, hname]
      | _ => simp [record, count, Observation.adds, Observation.entry?]
  | insufficientData _ | malformedEvents _ | fallbacks _ | decisionSeconds _ =>
      cases counter <;>
        simp [record, count, Observation.adds, Observation.entry?, Histogram.observe]

/-- The metrics after some observations. -/
def recordAll (m : Metrics) (observations : List Observation) : Metrics :=
  observations.foldl record m

@[simp] theorem recordAll_nil (m : Metrics) : m.recordAll [] = m :=
  rfl

@[simp] theorem recordAll_append (m : Metrics) (observations more : List Observation) :
    m.recordAll (observations ++ more) = (m.recordAll observations).recordAll more :=
  List.foldl_append

theorem count_recordAll (m : Metrics) (observations : List Observation) (counter : Counter) :
    (m.recordAll observations).count counter =
      m.count counter + .ofNat (observations.map (·.adds counter)).sum := by
  induction observations generalizing m with
  | nil => simp
  | cons observation rest ih =>
      calc (m.recordAll (observation :: rest)).count counter
          = (m.record observation).count counter + .ofNat (rest.map (·.adds counter)).sum := ih _
        _ = m.count counter + (.ofNat (observation.adds counter) +
              .ofNat (rest.map (·.adds counter)).sum) := by
            rw [count_record, UInt64.add_assoc]
        _ = m.count counter + .ofNat ((observation :: rest).map (·.adds counter)).sum := by
            rw [List.map_cons, List.sum_cons, UInt64.ofNat_add]

end Metrics

/-! ### Histories -/

/-- What the metrics were told. -/
def Exchange.observed? : Exchange → Option Observation
  | ⟨.record observation, _⟩ => some observation
  | _ => none

/-- What the metrics were told, the first first. -/
def observed (history : List Exchange) : List Observation :=
  history.filterMap Exchange.observed?

/-- How much a history adds to a counter. -/
def added (history : List Exchange) (counter : Counter) : Nat :=
  ((observed history).map (·.adds counter)).sum

@[simp] theorem observed_append (t u : List Exchange) :
    observed (t ++ u) = observed t ++ observed u :=
  List.filterMap_append

@[simp] theorem added_nil (counter : Counter) : added [] counter = 0 :=
  rfl

@[simp] theorem added_append (t u : List Exchange) (counter : Counter) :
    added (t ++ u) counter = added t counter + added u counter := by
  simp [added]

/-- What is told adds what the observation says. -/
@[simp] theorem added_record (observation : Observation) (answer : Unit) (counter : Counter) :
    added [⟨.record observation, answer⟩] counter = observation.adds counter := by
  simp [added, observed, Exchange.observed?]

/-- The order of a history does not matter. -/
theorem added_perm {t u : List Exchange} (h : t.Perm u) (counter : Counter) :
    added t counter = added u counter :=
  ((h.filterMap _).map _).sum_nat

/-- A call that adds nothing to a counter. -/
def Call.Spares (counter : Counter) : Call → Prop
  | .record observation => observation.adds counter = 0
  | _ => True

theorem added_eq_zero {history : List Exchange} {counter : Counter}
    (h : ∀ x ∈ history, x.call.Spares counter) : added history counter = 0 := by
  refine List.sum_eq_zero_iff_forall_eq_nat.mpr fun n hn => ?_
  obtain ⟨observation, hobserved, rfl⟩ := List.mem_map.mp hn
  obtain ⟨⟨call, answer⟩, hx, htold⟩ := List.mem_filterMap.mp hobserved
  have hspares := h _ hx
  cases call with
  | record other =>
      cases htold
      exact hspares
  | _ => cases htold

/-! ### Worlds -/

namespace World

/-- One call tells the metrics what it says. -/
theorem metrics_answer (w : World) (call : Call) :
    (w.answer call).2.metrics =
      w.metrics.map (·.recordAll (observed [⟨call, (w.answer call).1⟩])) := by
  have hsame : w.metrics = w.metrics.map (·.recordAll []) := by simp
  cases call with
  | store query =>
      simp only [answer, askStore]
      split <;> exact hsame
  | cache query =>
      simp only [answer, askCache]
      split <;> exact hsame
  | publish event =>
      simp only [answer, publish]
      split <;> exact hsame
  | consult request =>
      simp only [answer, consult]
      split <;> exact hsame
  | now => exact hsame
  | record observation => rfl

/-- A process that runs alone tells the metrics what its trace says. -/
theorem metrics_after {α : Type} (w : World) (process : Process α) :
    (w.after process).2.metrics =
      w.metrics.map (·.recordAll (observed (w.trace process))) := by
  refine Process.view_run World.answer World.metrics
    (fun metrics t => metrics.map (·.recordAll (observed t))) (fun metrics => ?_)
    (fun metrics x t => ?_) metrics_answer process w
  · simp [observed]
  · rw [← List.singleton_append, observed_append]
    simp [Function.comp_def]

end World

/-- In a run the metrics are what the history makes of them. -/
theorem Pipeline.Running.metrics_of_reachable {config : Config} {w : World} {r : Running}
    (h : Reachable config w r) :
    r.world.metrics = w.metrics.map (·.recordAll (observed r.history)) := by
  induction h with
  | start => simp [start, observed]
  | next _ hstep ih =>
      cases hstep with
      | begin | disturb => exact ih
      | proceed v before after past history call next =>
          rw [World.metrics_answer, ih, observed_append]
          simp [Function.comp_def]

end MarketSignals
