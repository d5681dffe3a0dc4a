import MarketSignals.Metrics.Basic
import MarketSignals.Decimal.Plain

/-!
# The text of the metrics

The text format in which metrics are collected: for each family a line of help, a line with its
type and a line for each value, families in the order of their names. A labelled family without
values is left out, and labels come in the order of their values.
-/

namespace MarketSignals

/-- A value of a family. -/
structure Sample where
  /-- What follows the family's name. -/
  ending : String := ""
  /-- The label's name and value, if there is one. -/
  label : Option (String × String) := none
  /-- The value. -/
  value : Float

/-- A family of values. -/
structure Family where
  /-- The name. -/
  name : String
  /-- What the family counts. -/
  help : String
  /-- The type. -/
  kind : String
  /-- The values. -/
  samples : List Sample

namespace Exposition

/-- A label's value with backslashes, quotes and line ends escaped. -/
def escapeLabel (value : String) : String :=
  String.ofList <| value.toList.flatMap fun c =>
    if c = '\\' then ['\\', '\\']
    else if c = '"' then ['\\', '"']
    else if c = '\n' then ['\\', 'n']
    else [c]

/-- A label in braces. -/
def labelText : Option (String × String) → String
  | none => ""
  | some (name, value) => "\x7b" ++ name ++ "=\"" ++ escapeLabel value ++ "\"\x7d"

/-- The line of a value. -/
def sampleLine (family : String) (s : Sample) : String :=
  family ++ s.ending ++ labelText s.label ++ " " ++ String.ofList (Decimal.plain s.value)

/-- The lines of a family. -/
def familyLines (f : Family) : List String :=
  ("# HELP " ++ f.name ++ " " ++ f.help) :: ("# TYPE " ++ f.name ++ " " ++ f.kind) ::
    f.samples.map (sampleLine f.name)

/-- A single value. -/
def single (value : Float) : List Sample :=
  [{ value }]

/-- The values of labelled counters, in the order of the labels. -/
def labelled (label : String) (tally : Tally) : List Sample :=
  (tally.entries.mergeSort fun a b => a.1 ≤ b.1).map fun (name, count) =>
    { label := some (label, name), value := count.toFloat }

/-- Running totals of counts. -/
def totals (before : UInt64) : List UInt64 → List UInt64
  | [] => []
  | n :: rest => (before + n) :: totals (before + n) rest

/-- The values of a histogram: how many observations did not exceed each bound, their sum and
their number. -/
def histogram (h : Histogram) : List Sample :=
  (List.zipWith (fun bound total =>
      { ending := "_bucket", label := some ("le", String.ofList (Decimal.plain bound)),
        value := UInt64.toFloat total })
    Histogram.bounds (totals 0 h.counts)) ++
  [{ ending := "_bucket", label := some ("le", "+Inf"), value := h.count.toFloat },
    { ending := "_sum", value := h.sum }, { ending := "_count", value := h.count.toFloat }]

end Exposition

namespace Metrics

open Exposition

/-- The families of all metrics, in the order of their names. -/
def families (m : Metrics) : List Family :=
  [⟨"cache_connected", "1 when the cache is reachable", "gauge", single m.cacheConnected⟩,
    ⟨"database_connected", "1 when the price store is reachable", "gauge",
      single m.databaseConnected⟩,
    ⟨"decision_duration_seconds", "Latency of the primary decision source", "histogram",
      histogram m.decisionSeconds⟩,
    ⟨"decision_fallbacks_total", "Decisions served by the rule engine after a remote failure",
      "counter", single m.fallbacks.toFloat⟩,
    ⟨"pipeline_insufficient_data_total", "Cycles ended because the price window was too short",
      "counter", single m.insufficientData.toFloat⟩,
    ⟨"pipeline_malformed_events_total", "Events acknowledged without processing", "counter",
      single m.malformedEvents.toFloat⟩,
    ⟨"pipeline_stage_events_total", "Pipeline events handled per stage", "counter",
      labelled "stage" m.stageEvents⟩,
    ⟨"pipeline_stage_failures_total", "Pipeline handler failures returned for redelivery",
      "counter", labelled "stage" m.stageFailures⟩,
    ⟨"signals_total", "Signals persisted per decision source", "counter",
      labelled "source" m.signals⟩]

/-- The lines of all metrics. -/
def lines (m : Metrics) : List String :=
  (m.families.filter fun family => !family.samples.isEmpty).flatMap familyLines

end Metrics

end MarketSignals
