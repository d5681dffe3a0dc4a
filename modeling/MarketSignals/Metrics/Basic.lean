import MarketSignals.Event

/-!
# Metrics

What the pipeline counts about itself. Counters have 64 bits and wrap; a labelled counter exists
from its first use.

## Main results

* `Tally.count_add` — a labelled counter grows by what is added to its label, and no other does.
-/

namespace MarketSignals

/-- Counters by label. -/
abbrev Tally : Type :=
  Keyed UInt64

namespace Tally

/-- The count of a label; zero before its first use. -/
def count (tally : Tally) (label : String) : UInt64 :=
  (Keyed.get? tally label).getD 0

/-- Adds to the count of a label. -/
def add (tally : Tally) (label : String) (amount : UInt64) : Tally :=
  Keyed.insert tally label (tally.count label + amount)

/-- A labelled counter grows by what is added to its label, and no other does. -/
theorem count_add (tally : Tally) (name label : String) (amount : UInt64) :
    (tally.add name amount).count label =
      if name = label then tally.count label + amount else tally.count label := by
  unfold add count
  rw [Keyed.get?_insert]
  by_cases h : name = label <;> simp [h]

end Tally

/-- Durations sorted into ranges. -/
structure Histogram where
  /-- How many observations fell into each range, in the order of the upper bounds. -/
  counts : List UInt64
  /-- The sum of all observations. -/
  sum : Float
  /-- How many observations there were. -/
  count : UInt64
deriving DecidableEq

namespace Histogram

/-- The upper bounds of the ranges. -/
def bounds : List Float :=
  [0.05, 0.1, 0.25, 0.5, 1, 2.5, 5, 10, 30]

/-- The histogram without observations. -/
def empty : Histogram :=
  ⟨bounds.map fun _ => 0, 0, 0⟩

/-- Counts an observation in the first range whose bound it does not exceed. -/
def countIn (x : Float) : List Float → List UInt64 → List UInt64
  | bound :: bounds, n :: counts =>
    if x ≤ bound then (n + 1) :: counts else n :: countIn x bounds counts
  | _, counts => counts

/-- Adds an observation; one beyond the last bound, or that is no number, falls in no range. -/
def observe (h : Histogram) (x : Float) : Histogram :=
  ⟨countIn x bounds h.counts, h.sum + x, h.count + 1⟩

end Histogram

/-- All metrics of the pipeline. -/
structure Metrics where
  /-- One while the database is reachable. -/
  databaseConnected : Float := 0
  /-- One while the cache is reachable. -/
  cacheConnected : Float := 0
  /-- Handled events by the queue of their stage. -/
  stageEvents : Tally := .empty
  /-- Handled events that failed and are to be tried again, by the queue of their stage. -/
  stageFailures : Tally := .empty
  /-- Cycles that ended because there were too few bars. -/
  insufficientData : UInt64 := 0
  /-- Events that were dropped as malformed. -/
  malformedEvents : UInt64 := 0
  /-- Decisions of the rules in place of a source that failed. -/
  fallbacks : UInt64 := 0
  /-- Stored signals by origin. -/
  signals : Tally := .empty
  /-- How long the source of decisions took. -/
  decisionSeconds : Histogram := .empty

/-- Something the metrics record. -/
inductive Observation where
  /-- The database was found reachable to this degree. -/
  | databaseConnected (value : Float)
  /-- The cache was found reachable to this degree. -/
  | cacheConnected (value : Float)
  /-- Events of a queue were handled. -/
  | stageEvents (queue : String) (amount : UInt64)
  /-- Events of a queue failed. -/
  | stageFailures (queue : String) (amount : UInt64)
  /-- Cycles ended early. -/
  | insufficientData (amount : UInt64)
  /-- Events were dropped. -/
  | malformedEvents (amount : UInt64)
  /-- The rules stood in for a source. -/
  | fallbacks (amount : UInt64)
  /-- Signals of an origin were stored. -/
  | signals (origin : String) (amount : UInt64)
  /-- A source took some seconds. -/
  | decisionSeconds (value : Float)

namespace Metrics

instance : Inhabited Metrics :=
  ⟨{}⟩

/-- The metrics after something was recorded. -/
def record (m : Metrics) : Observation → Metrics
  | .databaseConnected value => { m with databaseConnected := value }
  | .cacheConnected value => { m with cacheConnected := value }
  | .stageEvents queue amount => { m with stageEvents := m.stageEvents.add queue amount }
  | .stageFailures queue amount => { m with stageFailures := m.stageFailures.add queue amount }
  | .insufficientData amount => { m with insufficientData := m.insufficientData + amount }
  | .malformedEvents amount => { m with malformedEvents := m.malformedEvents + amount }
  | .fallbacks amount => { m with fallbacks := m.fallbacks + amount }
  | .signals origin amount => { m with signals := m.signals.add origin amount }
  | .decisionSeconds value => { m with decisionSeconds := m.decisionSeconds.observe value }

end Metrics

end MarketSignals
