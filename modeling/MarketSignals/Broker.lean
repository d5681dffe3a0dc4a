import MarketSignals.Pipeline.Delivery
import MarketSignals.Wire.Events

/-!
# The broker

Jobs are events on the queue of their stage, held as documents. A worker reads the document,
delivers the event, and delivers it again at once when it is to be retried, up to a number of
attempts; then the job is dead. What a delivery publishes becomes a job in turn.
-/

namespace MarketSignals

/-- An event on the queue of its stage. -/
structure Job where
  /-- The stage whose queue holds the job. -/
  stage : Stage
  /-- The document of the event. -/
  text : List Char
deriving DecidableEq

namespace Job

/-- The job of an event. -/
def ofEvent (event : Event) : Job :=
  ⟨event.stage, event.toJob.render⟩

/-- The event of a job. -/
def event? (job : Job) : Option Event :=
  (Json.read? job.text).bind (Event.ofJob? job.stage)

end Job

/-- What became of a job. -/
inductive Completion where
  /-- Its event was done with. -/
  | done
  /-- Its event failed at every attempt. -/
  | dead
deriving DecidableEq

/-- The name of a completion. -/
def Completion.name : Completion → String
  | .done => "done"
  | .dead => "dead"

/-- What the broker knows. -/
structure Broker where
  /-- The jobs that wait, the oldest first. -/
  jobs : List Job := []
  /-- The jobs that were completed, with the queue they were on. -/
  completed : List (Stage × Completion) := []
  /-- How many jobs could not be read. -/
  unread : Nat := 0

namespace Broker

/-- Puts events on their queues. -/
def enqueue (b : Broker) (events : List Event) : Broker :=
  { b with jobs := b.jobs ++ events.map Job.ofEvent }

/-- How often a job is delivered at most; at least once. -/
def attempts (config : Config) : Nat :=
  max 1 config.maxAttempts

/-- Delivers an event until it is done with, as often as there are attempts left. -/
def deliverJob (config : Config) (event : Event) : Nat → Process Completion
  | 0 => pure .dead
  | attempts + 1 => do
    match ← Pipeline.deliver config event with
    | .acknowledged => pure .done
    | .retry _ => deliverJob config event attempts

/-- How many deliveries a job may lead to: one for its stage and each that follows. -/
def stagesAhead : Stage → Nat
  | .priceIngested => 4
  | .indicatorRequested => 3
  | .decisionRequested => 2
  | .signalGenerated => 1

/-- Works off the jobs in order, for at most some number of jobs. -/
def work (config : Config) : Nat → Broker → World → Broker × World
  | 0, b, w => (b, w)
  | steps + 1, b, w =>
    match b.jobs with
    | [] => (b, w)
    | job :: jobs =>
      match job.event? with
      | none => work config steps { b with jobs, unread := b.unread + 1 } w
      | some event =>
        let (completion, w) := w.after (deliverJob config event (attempts config))
        let (published, w) := w.drain
        let b := { b with jobs, completed := b.completed ++ [(job.stage, completion)] }
        work config steps (b.enqueue published) w

/-- Works off all jobs and all that they lead to. -/
def workOff (config : Config) (b : Broker) (w : World) : Broker × World :=
  work config (b.jobs.foldl (fun steps job => steps + stagesAhead job.stage) 0) b w

end Broker

end MarketSignals
