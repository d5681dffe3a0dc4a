import MarketSignals.Pipeline.Upkeep
import MarketSignals.Pipeline.World

/-!
# The scheduler

Runs the tasks of upkeep: the refresh sweep at a fixed interval, where one is set, and the retention
of history every day at three o'clock UTC. A task that fails is run again at its next time. Time is
counted on a timer of the scheduler's own; the time of day is read from the clock whenever a task's
next time is set.
-/

namespace MarketSignals

/-- The second of the day at which history is pruned. -/
def retentionSecond : Nat := 10800

/-- The nanoseconds from a time to the next three o'clock after it. -/
def untilRetention (now : Timestamp) : Nat :=
  let today := now.second / secondsPerDay * secondsPerDay + retentionSecond
  let next := if now.nanos < today * nanosPerSecond then today else today + secondsPerDay
  (next * nanosPerSecond - now.nanos).toNat

/-- When the tasks are due, on the scheduler's timer. -/
structure Due where
  /-- The next refresh sweep, where there are any. -/
  sweep : Option Nat
  /-- The next retention. -/
  retention : Nat
deriving DecidableEq

/-- A scheduler. -/
structure Scheduler where
  /-- The seconds between refresh sweeps; none with zero. -/
  sweepSeconds : Nat
  /-- The nanoseconds that have passed. -/
  timer : Nat := 0
  /-- When the tasks are due, while the scheduler is running. -/
  due : Option Due := none
deriving DecidableEq

namespace Scheduler

/-- The time between refresh sweeps. -/
def sweepPeriod (s : Scheduler) : Option Span :=
  if s.sweepSeconds = 0 then none else some (.ofSeconds s.sweepSeconds)

/-- The tasks that are run. -/
def tasks (s : Scheduler) : List Task :=
  (if s.sweepSeconds = 0 then [] else [.refreshSweep]) ++ [.historyRetention]

/-- Whether the scheduler is running. -/
def isRunning (s : Scheduler) : Bool :=
  s.due.isSome

/-- Starts a scheduler; one that is running goes on. -/
def start (s : Scheduler) (w : World) : Scheduler × World :=
  match s.due with
  | some _ => (s, w)
  | none =>
    let sweep := s.sweepPeriod.map fun period => s.timer + period.nanos
    let retention := s.timer + untilRetention w.clock.now
    ({ s with due := some ⟨sweep, retention⟩ }, { w with clock := w.clock.tick })

/-- Stops a scheduler. -/
def stop (s : Scheduler) : Scheduler :=
  { s with due := none }

/-- The world after a task was run, whether it failed or not. -/
def runTask (config : Config) (task : Task) (w : World) : World :=
  (w.after (Pipeline.runTask config task).run).2

/-- The next task that is due until a time on the timer, and when it is due. -/
def next? (due : Due) (limit : Nat) : Option (Task × Nat) :=
  match due.sweep with
  | some sweep =>
    if sweep ≤ limit ∧ sweep ≤ due.retention then some (.refreshSweep, sweep)
    else if due.retention ≤ limit then some (.historyRetention, due.retention)
    else none
  | none => if due.retention ≤ limit then some (.historyRetention, due.retention) else none

/-- Runs the tasks that are due until a time on the timer. Each step runs one task, and a task's next
time is later than its last, so there are fewer steps than nanoseconds for each task. -/
def runDue (config : Config) (s : Scheduler) (limit : Nat) : Nat → Due → World → Due × World
  | 0, due, w => (due, w)
  | steps + 1, due, w =>
    match next? due limit with
    | none => (due, w)
    | some (.refreshSweep, time) =>
      let w := runTask config .refreshSweep w
      let due := { due with sweep := s.sweepPeriod.map fun period => time + period.nanos }
      runDue config s limit steps due w
    | some (.historyRetention, time) =>
      let w := runTask config .historyRetention w
      let due := { due with retention := time + untilRetention w.clock.now }
      runDue config s limit steps due { w with clock := w.clock.tick }

/-- Lets time pass on the timer. -/
def advance (config : Config) (s : Scheduler) (span : Span) (w : World) : Scheduler × World :=
  let timer := s.timer + span.nanos
  match s.due with
  | none => ({ s with timer }, w)
  | some due =>
    let (due, w) := runDue config s timer (2 * (span.nanos + 1)) due w
    ({ s with timer, due := some due }, w)

end Scheduler

end MarketSignals
