import Mathlib.Control.Monad.Basic
import MarketSignals.Pipeline.Delivery
import MarketSignals.Proofs.Pipeline.Calls

/-!
# Redelivery

An event that is delivered again and again until it is done with leads to one event of the next
stage, however often it failed before. The reason is the shape of a stage: publishing is its last
call, so what fails has published nothing.

## Main results

* `Attempt.Forwards`: the stages publish last, on every path (`stageOf_forwards`).
* `log_after_handle`: what one run of a stage adds to the log, by its result.
* `deliver_retry_iff`: an event is retried exactly after a failure of store, cache or broker.
* `forwards_of_redelivered`: a delivery repeated until it succeeds forwards the event once.
-/

namespace MarketSignals

/-- What handling an event may publish, by how it ends: the event of the next stage, for the same
instrument, where the stage advanced; nothing where it ended otherwise. -/
def Event.Forwards (event : Event) (added : List Event) :
    Except PipelineError Outcome → Prop
  | .ok .advanced => ∃ next, added = [next] ∧ event.stage.next? = some next.stage ∧
      next.symbol = event.symbol ∧ next.market = event.market
  | .ok (.endedEarly _) | .ok .completed | .error _ => added = []

/-- Where nothing is published, the stage did not advance. -/
theorem Event.Forwards.of_nil {event : Event} {result : Except PipelineError Outcome}
    (h : result ≠ .ok .advanced) : event.Forwards [] result := by
  unfold Event.Forwards
  split
  · exact absurd rfl h
  all_goals rfl

/-- An attempt publishes what the event forwards to, by how the attempt ends. -/
def Attempt.Forwards (event : Event) (x : Attempt Outcome) : Prop :=
  ∀ t result, Process.Path x.run t (.done result) → event.Forwards (published t) result

namespace Attempt

variable {α : Type} {event : Event}

/-- What is quiet may come before. -/
theorem forwards_bind {x : Attempt α} {f : α → Attempt Outcome} (hx : Only Call.IsQuiet x)
    (hf : ∀ a, Forwards event (f a)) : Forwards event (x >>= f) := by
  intro t result h
  rcases path_bind h with ⟨p, hp, hfailed⟩ | ⟨t₁, t₂, a, rfl, hp, hrest⟩
  · obtain ⟨e, rfl, -⟩ := hfailed result rfl
    rw [published_eq_nil (hx.calls hp)]
    exact .of_nil (by simp)
  · rw [published_append, published_eq_nil (hx.calls hp)]
    exact hf a t₂ result hrest

/-- A stage that ends without advancing forwards nothing. -/
theorem forwards_pure {outcome : Outcome} (h : outcome ≠ .advanced) :
    Forwards event (pure outcome) := by
  intro t result hpath
  obtain ⟨rfl, hdone⟩ := hpath.of_done
  cases hdone
  exact .of_nil (by simpa using h)

theorem forwards_refuse (cause : Malformed) : Forwards event (refuse cause) := by
  intro t result hpath
  obtain ⟨rfl, hdone⟩ := hpath.of_done
  cases hdone
  exact .of_nil (by simp)

/-- The last step of a stage: the next event is published, and where it is not, the stage fails. -/
theorem forwards_publish {next : Event} (hstage : event.stage.next? = some next.stage)
    (hsymbol : next.symbol = event.symbol) (hmarket : next.market = event.market) :
    Forwards event (do publish next; pure .advanced) := by
  intro t result hpath
  cases hpath with
  | @step _ _ answer _ _ hrest =>
      cases answer with
      | ok _ =>
          obtain ⟨rfl, hdone⟩ := hrest.of_done
          cases hdone
          exact ⟨next, rfl, hstage, hsymbol, hmarket⟩
      | error e =>
          obtain ⟨rfl, hdone⟩ := hrest.of_done
          cases hdone
          rfl

end Attempt

namespace Pipeline

/-- A stage for a new price forwards it once the cache is cleared. -/
theorem onPriceIngested_forwards (symbol market : String) :
    Attempt.Forwards (.priceIngested symbol market) (onPriceIngested symbol market) := by
  refine Attempt.forwards_bind (quiet_validate _ _) fun _ => ?_
  refine Attempt.forwards_bind (Attempt.quiet_cache _) fun _ => ?_
  exact Attempt.forwards_publish rfl rfl rfl

theorem onIndicatorRequested_forwards (config : Config) (symbol market : String) :
    Attempt.Forwards (.indicatorRequested symbol market)
      (onIndicatorRequested config symbol market) := by
  refine Attempt.forwards_bind (quiet_validate _ _) fun _ => ?_
  refine Attempt.forwards_bind (Attempt.quiet_store _) fun bars => ?_
  cases config.lookbacks.compute symbol bars with
  | error e =>
      cases e with
      | insufficientData required available =>
          refine Attempt.forwards_bind (Attempt.quiet_record _) fun _ => ?_
          exact Attempt.forwards_pure (by simp)
      | nonFinitePrice _ _ => exact Attempt.forwards_pure (by simp)
  | ok snapshot =>
      refine Attempt.forwards_bind (Attempt.quiet_store _) fun _ => ?_
      refine Attempt.forwards_bind (Attempt.quiet_cache _) fun _ => ?_
      exact Attempt.forwards_publish rfl rfl rfl

theorem onDecisionRequested_forwards (config : Config) (symbol market : String)
    (indicators : Snapshot) :
    Attempt.Forwards (.decisionRequested symbol market indicators)
      (onDecisionRequested config symbol market indicators) := by
  refine Attempt.forwards_bind (quiet_validate _ _) fun _ => ?_
  split
  · refine Attempt.forwards_bind (quiet_latestPrice _) fun price => ?_
    cases price with
    | none => exact Attempt.forwards_refuse _
    | some price =>
        refine Attempt.forwards_bind (Attempt.only_lift (quiet_decide _)) fun decision => ?_
        refine Attempt.forwards_bind (Attempt.quiet_store _) fun _ => ?_
        refine Attempt.forwards_bind (Attempt.quiet_store _) fun recent => ?_
        refine Attempt.forwards_bind (Attempt.quiet_cache _) fun _ => ?_
        refine Attempt.forwards_bind (Attempt.quiet_record _) fun _ => ?_
        exact Attempt.forwards_publish rfl rfl rfl
  · exact Attempt.forwards_refuse _

theorem onSignalGenerated_forwards (symbol market : String) (signal : Signal) :
    Attempt.Forwards (.signalGenerated symbol market signal) (onSignalGenerated symbol market) :=
  Attempt.forwards_bind (quiet_validate _ _) fun _ => Attempt.forwards_pure (by simp)

/-- Every stage publishes the event of the next stage as its last call, or nothing. -/
theorem stageOf_forwards (config : Config) (event : Event) :
    Attempt.Forwards event (stageOf config event) := by
  unfold stageOf
  split
  · exact onPriceIngested_forwards _ _
  · exact onIndicatorRequested_forwards _ _ _
  · exact onDecisionRequested_forwards _ _ _ _
  · exact onSignalGenerated_forwards _ _ _

theorem handle_forwards (config : Config) (event : Event) :
    Attempt.Forwards event (handle config event) :=
  Attempt.forwards_bind (Attempt.quiet_record _) fun _ => stageOf_forwards config event

/-! ### One delivery -/

/-- What one run of a stage adds to the log, by its result. -/
theorem log_after_handle (config : Config) (event : Event) (w : World) :
    ∃ added, (w.after (handle config event).run).2.log = w.log ++ added ∧
      event.Forwards added (w.after (handle config event).run).1 :=
  ⟨_, w.log_after _, handle_forwards config event _ _ (w.path_after _)⟩

/-- What the queue learns from the result of a stage. -/
def verdictOf : Except PipelineError Outcome → Verdict
  | .ok _ => .acknowledged
  | .error error => if error.isRetryable then .retry error else .acknowledged

/-- A delivery runs the stage, and only tells the metrics besides. -/
theorem after_deliver (config : Config) (event : Event) (w : World) :
    (w.after (deliver config event)).1 = verdictOf (w.after (handle config event).run).1 ∧
      ∃ metrics, (w.after (deliver config event)).2 =
        { (w.after (handle config event).run).2 with metrics } := by
  unfold World.after deliver
  rw [Process.run_bind]
  generalize Process.run World.answer (handle config event).run w = after
  obtain ⟨result, w'⟩ := after
  cases result with
  | ok outcome => exact ⟨rfl, w'.metrics, rfl⟩
  | error e =>
      by_cases hretry : e.isRetryable
      · simp only [hretry, verdictOf, if_true]
        exact ⟨rfl, w'.metrics.map (·.record (.stageFailures event.stage.queue 1)), rfl⟩
      · simp only [hretry, verdictOf]
        exact ⟨rfl, w'.metrics.map (·.record (.malformedEvents 1)), rfl⟩

/-- An event is retried exactly after a failure of the store, the cache or the broker. -/
theorem deliver_retry_iff (config : Config) (event : Event) (w : World) (error : PipelineError) :
    (w.after (deliver config event)).1 = .retry error ↔
      (w.after (handle config event).run).1 = .error error ∧
        ((∃ e, error = .store e) ∨ (∃ e, error = .cache e) ∨ ∃ e, error = .publish e) := by
  rw [(after_deliver config event w).1]
  cases (w.after (handle config event).run).1 with
  | ok outcome => simp [verdictOf]
  | error e =>
      cases e with
      | store _ | cache _ | publish _ =>
          simp only [verdictOf, PipelineError.isRetryable, if_true, Verdict.retry.injEq,
            Except.error.injEq]
          constructor
          · rintro rfl
            simp
          · exact fun h => h.1
      | malformed cause =>
          simp only [verdictOf, PipelineError.isRetryable, Bool.false_eq_true, if_false]
          constructor
          · exact fun h => nomatch h
          · rintro ⟨h, hcause⟩
            cases h
            simp at hcause

/-! ### Many deliveries -/

/-- Deliveries of an event from a world on, each failed one followed by another, up to the first
that is acknowledged: what all of them together published, and how the stage ended at last. Others
may work between two deliveries, so the next one may meet any world. -/
inductive Redelivered (config : Config) (event : Event) :
    World → List Event → Except PipelineError Outcome → Prop
  | settled {w : World} {added : List Event} :
      (w.after (deliver config event)).1 = .acknowledged →
      (w.after (deliver config event)).2.log = w.log ++ added →
      Redelivered config event w added (w.after (handle config event).run).1
  | again {w w' : World} {added later : List Event} {error : PipelineError}
      {result : Except PipelineError Outcome} :
      (w.after (deliver config event)).1 = .retry error →
      (w.after (deliver config event)).2.log = w.log ++ added →
      Redelivered config event w' later result →
      Redelivered config event w (added ++ later) result

/-- What one delivery adds to the log is what the result of the stage allows. -/
theorem forwards_of_deliver {config : Config} {event : Event} {w : World} {added : List Event}
    (hlog : (w.after (deliver config event)).2.log = w.log ++ added) :
    event.Forwards added (w.after (handle config event).run).1 := by
  obtain ⟨published, hpublished, hforwards⟩ := log_after_handle config event w
  obtain ⟨-, metrics, hafter⟩ := after_deliver config event w
  rw [hafter, hpublished] at hlog
  rwa [List.append_cancel_left hlog] at hforwards

/-- Failed deliveries publish nothing, so all deliveries together publish what the last one does. -/
theorem forwards_of_redelivered {config : Config} {event : Event} {w : World}
    {added : List Event} {result : Except PipelineError Outcome}
    (h : Redelivered config event w added result) : event.Forwards added result := by
  induction h with
  | settled _ hlog => exact forwards_of_deliver hlog
  | again hretry hlog _ ih =>
      have hfailed := forwards_of_deliver hlog
      rw [((deliver_retry_iff config event _ _).mp hretry).1] at hfailed
      obtain rfl := hfailed
      exact ih

/-- **An event is forwarded once.** One run of its stage fails and publishes nothing, or advances
and publishes exactly the next event of the same instrument, or ends otherwise and publishes
nothing. It is retried exactly after a failure of the store, the cache or the broker, and however
often it is, all deliveries together publish what the last one does: one event or none. -/
theorem event_forwarded_once (config : Config) (event : Event) :
    (∀ w : World, ∃ added, (w.after (handle config event).run).2.log = w.log ++ added ∧
      event.Forwards added (w.after (handle config event).run).1) ∧
    (∀ (w : World) (error : PipelineError), (w.after (deliver config event)).1 = .retry error ↔
      (w.after (handle config event).run).1 = .error error ∧
        ((∃ e, error = .store e) ∨ (∃ e, error = .cache e) ∨ ∃ e, error = .publish e)) ∧
    ∀ (w : World) (added : List Event) (result : Except PipelineError Outcome),
      Redelivered config event w added result → event.Forwards added result :=
  ⟨log_after_handle config event, deliver_retry_iff config event,
    fun _ _ _ => forwards_of_redelivered⟩

/-- A world with one instrument, whose cache fails once when an instrument is invalidated and whose
broker fails once. -/
def unsteady : World where
  store := Store.addInstrument {} ⟨"AAPL", "NASDAQ", "", true⟩
  faults := { cache := fun _ => [some (.server "down")], publish := [some "full"] }
  clock := { readings := fun _ => .epoch }

/-- Two failed deliveries and a third that advances publish one event. -/
theorem event_forwarded_once_unsteady :
    Redelivered {} (.priceIngested "AAPL" "NASDAQ") unsteady
        ([] ++ ([] ++ [.indicatorRequested "AAPL" "NASDAQ"])) (.ok .advanced) ∧
      Event.Forwards (.priceIngested "AAPL" "NASDAQ")
        ([] ++ ([] ++ [.indicatorRequested "AAPL" "NASDAQ"])) (.ok .advanced) := by
  let event : Event := .priceIngested "AAPL" "NASDAQ"
  let second := (unsteady.after (deliver {} event)).2
  let third := (second.after (deliver {} event)).2
  have hresult : (third.after (handle {} event).run).1 = .ok .advanced := by
    decide +kernel
  have hthird : Redelivered {} event third [.indicatorRequested "AAPL" "NASDAQ"] (.ok .advanced) :=
    hresult ▸ .settled (by decide +kernel) (by decide +kernel)
  have hcache : (unsteady.after (deliver {} event)).1 = .retry (.cache (.server "down")) := by
    decide +kernel
  have hbroker : (second.after (deliver {} event)).1 =
      .retry (.publish (.broker .indicatorRequested "full")) := by
    decide +kernel
  have h : Redelivered {} event unsteady ([] ++ ([] ++ [.indicatorRequested "AAPL" "NASDAQ"]))
      (.ok .advanced) :=
    .again hcache (by decide +kernel) (.again hbroker (by decide +kernel) hthird)
  exact ⟨h, (event_forwarded_once {} event).2.2 _ _ _ h⟩

end Pipeline

end MarketSignals
