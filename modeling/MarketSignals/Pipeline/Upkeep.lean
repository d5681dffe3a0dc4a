import MarketSignals.Pipeline.Cycle

/-!
# Upkeep

What happens besides the cycles of single instruments: indicators of all active instruments are
asked for from time to time, and old history is dropped.
-/

namespace MarketSignals

/-- A task that is run from time to time. -/
inductive Task where
  /-- Ask for the indicators of every active instrument. -/
  | refreshSweep
  /-- Drop history from before the retention time. -/
  | historyRetention
deriving DecidableEq

/-- The name of a task. -/
def Task.name : Task → String
  | .refreshSweep => "refresh-sweep"
  | .historyRetention => "history-retention"

namespace Pipeline

/-- Asks for the indicators of each of some instruments. -/
def requestIndicators : List Instrument → Attempt Unit
  | [] => pure ()
  | instrument :: rest => do
    Attempt.publish (.indicatorRequested instrument.symbol instrument.market)
    requestIndicators rest

/-- Asks for the indicators of every active instrument; the result is their number. -/
def refreshActive : Attempt Nat := do
  let instruments ← Attempt.store .activeInstruments
  requestIndicators instruments
  pure instruments.length

/-- Drops history from before the retention time, counted back from a time. The result is where
the history now begins, none if that lies before all time. -/
def pruneHistory (config : Config) (now : Timestamp) : Attempt (Option Timestamp) := do
  match now.daysBefore? config.retentionDays with
  | none => pure none
  | some cutoff => do
    Attempt.store (.prune cutoff)
    pure (some cutoff)

/-- Runs a task. -/
def runTask (config : Config) : Task → Attempt Unit
  | .refreshSweep => do
    let _ ← refreshActive
    pure ()
  | .historyRetention => do
    let now ← ExceptT.lift (Process.perform .now)
    let _ ← pruneHistory config now
    pure ()

end Pipeline

end MarketSignals
