import MarketSignals.Indicator.Lookbacks
import MarketSignals.Time.Span

/-!
# Configuration

The settings of the pipeline and their defaults.
-/

namespace MarketSignals

/-- How long each kind of cache entry lives. -/
structure CacheTtl where
  /-- The latest price of an instrument. -/
  price : Span := .ofSeconds 60
  /-- Its snapshot. -/
  snapshot : Span := .ofSeconds 600
  /-- Its recent signals. -/
  signals : Span := .ofSeconds 900
deriving DecidableEq

/-- The settings of the pipeline. -/
structure Config where
  /-- Where the remote decision service is found; without one the rules decide. -/
  decisionServiceUrl : Option String := none
  /-- How long the service may take. -/
  decisionTimeout : Span := .ofSeconds 30
  /-- How many bars a cycle looks at, at least. -/
  priceWindow : Nat := 100
  /-- How many recent signals the cache keeps. -/
  recentSignals : Nat := 20
  /-- How many jobs each worker runs at once. -/
  workerConcurrency : Nat := 4
  /-- How often a job is tried. -/
  maxAttempts : Nat := 3
  /-- How long cache entries live. -/
  cacheTtl : CacheTtl := {}
  /-- The seconds between refresh sweeps; none with zero. -/
  sweepIntervalSeconds : Nat := 0
  /-- The days that history is kept. -/
  retentionDays : Nat := 730
  /-- The periods of the indicators, with sums that are machine words. -/
  lookbacks : Lookbacks := {}
  /-- The worker's name in the metadata of requests. -/
  workerName : String := "tickerwise-worker"
deriving DecidableEq

/-- How many bars a cycle looks at: the window, or what the lookbacks take where that is more. -/
def Config.effectivePriceWindow (c : Config) : Nat :=
  max c.priceWindow c.lookbacks.requiredBars

end MarketSignals
