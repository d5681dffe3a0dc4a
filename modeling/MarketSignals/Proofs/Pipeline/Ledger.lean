import MarketSignals.Proofs.Metrics.Counters
import MarketSignals.Proofs.Pipeline.DecisionStage
import MarketSignals.Proofs.Pipeline.Redelivery
import MarketSignals.Proofs.Pipeline.SignalBounds

/-!
# The ledger of deliveries

After any deliveries the metrics tell what they came to: how many events of each stage were
delivered, how many failed, how many made no sense, how many cycles ended for want of bars, how
often the primary source was asked and how often it failed. Each event is counted as it arrives, so
the numbers add up: an event went on or completed its cycle, ended it early, made no sense, or
failed.

Three parts of a delivery count: the delivery itself, the stage, and the decision within the stage.
Whatever calls fail, what was told to the metrics follows from the answers of the primary source and
from the result. The counter of signals is left out here; it depends on where a stage failed.

## Main results

* `Attempt.Books`: what the metrics were told of a stage, on every path (`stageOf_books`).
* `added_deliver`: what one delivery adds to every counter.
* `Deliveries.count`: what the counters show after a run of deliveries.
* `cameTo_iff`: a delivery comes to the one fate that its result makes of it.
* `metrics_keep_ledger`: the ledger of every run balances.
-/

namespace MarketSignals

/-- Each stage has a queue of its own. -/
theorem Stage.queue_inj {stage other : Stage} : stage.queue = other.queue ↔ stage = other := by
  cases stage <;> cases other <;> simp [Stage.queue]

/-! ### Replies of the primary source -/

/-- The source gave no decision. -/
def Answer.failed (answer : Answer) : Bool :=
  answer.result matches .error _

/-- The answers of the primary source, the first first. -/
def replies (history : List Exchange) : List Answer :=
  (consulted history).filterMap fun asked => asked.2.map Prod.snd

@[simp] theorem replies_append (t u : List Exchange) :
    replies (t ++ u) = replies t ++ replies u := by
  simp [replies]

/-- There is one answer for each call of the primary source. -/
theorem World.length_asked_after {α : Type} (w : World) (process : Process α) :
    (w.after process).2.asked.length = w.asked.length + (replies (w.trace process)).length := by
  refine Process.view_run World.answer (fun w => w.asked.length)
    (fun n t => n + (replies t).length) (fun n => rfl) (fun n x t => ?_) (fun w call => ?_)
    process w
  · rw [← List.singleton_append, replies_append, List.length_append, Nat.add_assoc]
  · cases call with
    | store query =>
        simp only [answer, askStore]
        split <;> rfl
    | cache query =>
        simp only [answer, askCache]
        split <;> rfl
    | publish event =>
        simp only [answer, publish]
        split <;> rfl
    | consult request =>
        simp only [answer, consult]
        split <;> simp [replies, consulted, Exchange.consulted?]
    | now | record _ => rfl

/-- What is counted of the primary source: that it answered, and that the rules stood in. -/
def sourceEntries (answers : List Answer) : Counter → Nat
  | .timings => answers.length
  | .fallbacks => answers.countP Answer.failed
  | _ => 0

@[simp] theorem sourceEntries_nil (counter : Counter) : sourceEntries [] counter = 0 := by
  cases counter <;> rfl

@[simp] theorem sourceEntries_append (answers more : List Answer) (counter : Counter) :
    sourceEntries (answers ++ more) counter =
      sourceEntries answers counter + sourceEntries more counter := by
  cases counter <;> simp [sourceEntries]

/-- A counter of deliveries, and of what they came to. -/
def Counter.IsOfDeliveries : Counter → Prop
  | .signals _ => False
  | _ => True

/-- A call that counts no delivery and asks no source. -/
def Call.IsMute : Call → Prop
  | .consult _ => False
  | .record observation =>
    ∀ counter : Counter, counter.IsOfDeliveries → observation.adds counter = 0
  | _ => True

/-- Where every call is mute, nothing is counted. -/
theorem added_of_mute {history : List Exchange} (h : ∀ x ∈ history, x.call.IsMute)
    {counter : Counter} (hcounter : counter.IsOfDeliveries) : added history counter = 0 := by
  refine added_eq_zero fun x hx => ?_
  obtain ⟨call, answer⟩ := x
  cases call with
  | record observation => exact h _ hx counter hcounter
  | _ => trivial

/-- Where every call is mute, the primary source answers nothing. -/
theorem replies_of_mute {history : List Exchange} (h : ∀ x ∈ history, x.call.IsMute) :
    replies history = [] := by
  have hnone : consulted history = [] := by
    refine List.filterMap_eq_nil_iff.mpr fun x hx => ?_
    have hmute := h x hx
    unfold Exchange.consulted?
    split
    · exact hmute.elim
    · rfl
  rw [replies, hnone]
  rfl

/-! ### Stages -/

/-- What is counted of the result of a stage: that there were too few bars. -/
def resultEntries : Except PipelineError Outcome → Counter → Nat
  | .ok (.endedEarly (.insufficientData _ _)), .insufficientData => 1
  | _, _ => 0

namespace Attempt

variable {α : Type}

/-- However it ends, an attempt has counted the answers of the primary source and nothing else. -/
def BooksSource (x : Attempt α) : Prop :=
  ∀ t r, Process.Path x.run t (.done r) → ∀ counter : Counter, counter.IsOfDeliveries →
    added t counter = sourceEntries (replies t) counter

/-- However it ends, an attempt has counted the answers of the primary source and its result. -/
def Books (x : Attempt Outcome) : Prop :=
  ∀ t r, Process.Path x.run t (.done r) → ∀ counter : Counter, counter.IsOfDeliveries →
    added t counter = sourceEntries (replies t) counter + resultEntries r counter

theorem booksSource_of_mute {x : Attempt α} (hx : Only Call.IsMute x) : BooksSource x := by
  intro t r h counter hcounter
  rw [added_of_mute (hx.calls h) hcounter, replies_of_mute (hx.calls h), sourceEntries_nil]

/-- What counts only the answers of the source may come before. -/
theorem books_bind {x : Attempt α} {f : α → Attempt Outcome} (hx : BooksSource x)
    (hf : ∀ a, Books (f a)) : Books (x >>= f) := by
  intro t r h counter hcounter
  rcases path_bind h with ⟨p, hp, hfailed⟩ | ⟨t₁, t₂, a, rfl, hp, hrest⟩
  · obtain ⟨e, rfl, rfl⟩ := hfailed r rfl
    exact hx t _ hp counter hcounter
  · rw [added_append, replies_append, sourceEntries_append, hx t₁ _ hp counter hcounter,
      hf a t₂ r hrest counter hcounter, Nat.add_assoc]

/-- What is mute may come before. -/
theorem books_bind_mute {x : Attempt α} {f : α → Attempt Outcome} (hx : Only Call.IsMute x)
    (hf : ∀ a, Books (f a)) : Books (x >>= f) :=
  books_bind (booksSource_of_mute hx) hf

/-- A stage may end with any result that is not counted. -/
theorem books_pure {outcome : Outcome} (h : ∀ counter, resultEntries (.ok outcome) counter = 0) :
    Books (pure outcome) := by
  intro t r hpath counter _
  obtain ⟨rfl, hdone⟩ := hpath.of_done
  cases hdone
  rw [h counter]
  exact (sourceEntries_nil counter).symm

theorem books_refuse (cause : Malformed) : Books (refuse cause) := by
  intro t r hpath counter _
  obtain ⟨rfl, hdone⟩ := hpath.of_done
  cases hdone
  exact (sourceEntries_nil counter).symm

/-- Too few bars are counted as the cycle ends. -/
theorem books_insufficientData (required available : Nat) :
    Books (do
      record (.insufficientData 1)
      pure (.endedEarly (.insufficientData required available))) := by
  intro t r hpath counter _
  obtain ⟨rest, rfl, hrest⟩ := path_record_bind hpath
  obtain ⟨rfl, hdone⟩ := hrest.of_done
  cases hdone
  rw [List.append_nil, added_record]
  cases counter <;> rfl

/-- Signals have a counter of their own. -/
theorem mute_recordSignals (origin : String) (amount : UInt64) :
    Only Call.IsMute (record (.signals origin amount)) := by
  refine only_record fun counter hcounter => ?_
  cases counter with
  | signals _ => exact hcounter.elim
  | _ => rfl

theorem mute_store (query : Store.Query) : Only Call.IsMute (store query) :=
  only_store trivial

theorem mute_cache (query : Cache.Query) : Only Call.IsMute (cache query) :=
  only_cache trivial

theorem mute_publish (event : Event) : Only Call.IsMute (publish event) :=
  only_publish trivial

end Attempt

namespace Pipeline

theorem mute_validate (symbol market : String) :
    Attempt.Only Call.IsMute (validate symbol market) :=
  only_validate trivial

theorem mute_latestPrice (symbol : String) : Attempt.Only Call.IsMute (latestPrice symbol) :=
  only_latestPrice trivial trivial fun _ => trivial

/-- A decision asks the primary source first. Where the source answers, it is told how long that
took; the rules decide where it does not, and it is told where that is because it failed. -/
theorem path_decide {request : DecisionRequest} {t : List Exchange} {d : Decision}
    (h : Process.Path (decide request) t (.done d)) :
    (∃ now, t = [⟨.consult request, none⟩, ⟨.now, now⟩]) ∨
      ∃ origin answer, (answer.failed = false ∧
          t = [⟨.consult request, some (origin, answer)⟩,
            ⟨.record (.decisionSeconds answer.seconds), ()⟩]) ∨
        ∃ now, answer.failed = true ∧
          t = [⟨.consult request, some (origin, answer)⟩,
            ⟨.record (.decisionSeconds answer.seconds), ()⟩, ⟨.record (.fallbacks 1), ()⟩,
            ⟨.now, now⟩] := by
  have hrules : ∀ {u : List Exchange}, Process.Path (decideByRules request) u (.done d) →
      ∃ now, u = [⟨.now, now⟩] := by
    intro u hu
    cases hu with
    | @step _ _ now _ _ hrest => exact ⟨now, by rw [hrest.of_done.1]⟩
  cases h with
  | @step _ _ reply u _ hreply =>
      cases reply with
      | none =>
          obtain ⟨now, rfl⟩ := hrules hreply
          exact .inl ⟨now, rfl⟩
      | some replied =>
          obtain ⟨origin, result, seconds⟩ := replied
          cases hreply with
          | @step _ _ _ v _ htimed =>
              cases result with
              | ok decision =>
                  obtain ⟨rfl, -⟩ := htimed.of_done
                  exact .inr ⟨origin, _, .inl ⟨rfl, rfl⟩⟩
              | error e =>
                  cases htimed with
                  | @step _ _ _ w _ hcounted =>
                      obtain ⟨now, rfl⟩ := hrules hcounted
                      exact .inr ⟨origin, _, .inr ⟨now, rfl, rfl⟩⟩

/-- A decision counts how long the source took, and that the rules stand in where it failed. -/
theorem booksSource_decide (request : DecisionRequest) :
    Attempt.BooksSource (ExceptT.lift (decide request)) := by
  intro t r h counter hcounter
  rw [ExceptT.run_lift, map_eq_pure_bind] at h
  obtain ⟨t, u, decision, rfl, hpath, hlift⟩ := Process.path_bind_done h
  obtain ⟨rfl, -⟩ := hlift.of_done
  rw [List.append_nil]
  rcases path_decide hpath with
    ⟨now, rfl⟩ | ⟨origin, answer, ⟨hanswered, rfl⟩ | ⟨now, hfailed, rfl⟩⟩
  · exact (sourceEntries_nil counter).symm
  · change (([.decisionSeconds answer.seconds] : List Observation).map (·.adds counter)).sum =
      sourceEntries [answer] counter
    cases counter <;> simp [Observation.adds, Observation.entry?, sourceEntries, hanswered]
  · change (([.decisionSeconds answer.seconds, .fallbacks 1] : List Observation).map
      (·.adds counter)).sum = sourceEntries [answer] counter
    cases counter <;> simp [Observation.adds, Observation.entry?, sourceEntries, hfailed]

theorem onIndicatorRequested_books (config : Config) (symbol market : String) :
    Attempt.Books (onIndicatorRequested config symbol market) := by
  refine Attempt.books_bind_mute (mute_validate _ _) fun _ => ?_
  refine Attempt.books_bind_mute (Attempt.mute_store _) fun bars => ?_
  cases config.lookbacks.compute symbol bars with
  | error e =>
      cases e with
      | insufficientData required available => exact Attempt.books_insufficientData _ _
      | nonFinitePrice _ _ => exact Attempt.books_pure fun _ => rfl
  | ok snapshot =>
      refine Attempt.books_bind_mute (Attempt.mute_store _) fun _ => ?_
      refine Attempt.books_bind_mute (Attempt.mute_cache _) fun _ => ?_
      refine Attempt.books_bind_mute (Attempt.mute_publish _) fun _ => ?_
      exact Attempt.books_pure fun _ => rfl

theorem onDecisionRequested_books (config : Config) (symbol market : String)
    (indicators : Snapshot) :
    Attempt.Books (onDecisionRequested config symbol market indicators) := by
  refine Attempt.books_bind_mute (mute_validate _ _) fun _ => ?_
  split
  · refine Attempt.books_bind_mute (mute_latestPrice _) fun price => ?_
    cases price with
    | none => exact Attempt.books_refuse _
    | some price =>
        refine Attempt.books_bind (booksSource_decide _) fun decision => ?_
        refine Attempt.books_bind_mute (Attempt.mute_store _) fun _ => ?_
        refine Attempt.books_bind_mute (Attempt.mute_store _) fun recent => ?_
        refine Attempt.books_bind_mute (Attempt.mute_cache _) fun _ => ?_
        refine Attempt.books_bind_mute (Attempt.mute_recordSignals _ _) fun _ => ?_
        refine Attempt.books_bind_mute (Attempt.mute_publish _) fun _ => ?_
        exact Attempt.books_pure fun _ => rfl
  · exact Attempt.books_refuse _

/-- Every stage counts the answers of the primary source and that there were too few bars. -/
theorem stageOf_books (config : Config) (event : Event) :
    Attempt.Books (stageOf config event) := by
  unfold stageOf
  split
  · refine Attempt.books_bind_mute (mute_validate _ _) fun _ => ?_
    refine Attempt.books_bind_mute (Attempt.mute_cache _) fun _ => ?_
    refine Attempt.books_bind_mute (Attempt.mute_publish _) fun _ => ?_
    exact Attempt.books_pure fun _ => rfl
  · exact onIndicatorRequested_books _ _ _
  · exact onDecisionRequested_books _ _ _ _
  · exact Attempt.books_bind_mute (mute_validate _ _) fun _ => Attempt.books_pure fun _ => rfl

/-! ### One delivery -/

/-- A delivered event: how its stage ended, what the queue learnt, and what the primary source
answered. -/
structure Delivery where
  event : Event
  result : Except PipelineError Outcome
  verdict : Verdict
  answers : List Answer

/-- What a delivery comes to. -/
inductive Fate where
  /-- The next event was published, or the cycle ended with its signal. -/
  | finished
  /-- The cycle ended without a signal. -/
  | endedEarly
  /-- The event made no sense. -/
  | malformed
  /-- The event is to be delivered again. -/
  | failed
deriving DecidableEq

namespace Delivery

/-- The delivery of an event in a world. -/
def inWorld (config : Config) (w : World) (event : Event) : Delivery where
  event := event
  result := (w.after (handle config event).run).1
  verdict := (w.after (deliver config event)).1
  answers := replies (w.trace (deliver config event))

/-- Whether a delivery came to a fate. -/
def cameTo (d : Delivery) : Fate → Bool
  | .finished => (d.result matches .ok .advanced) || (d.result matches .ok .completed)
  | .endedEarly => (d.result matches .ok (.endedEarly _))
  | .malformed => (d.result matches .error (.malformed _))
  | .failed => (d.verdict matches .retry _)

/-- Whether there were too few bars. -/
def isShort (d : Delivery) : Bool :=
  d.result matches .ok (.endedEarly (.insufficientData _ _))

end Delivery

/-- What the counters should show of deliveries. -/
def ledger (deliveries : List Delivery) : Counter → Nat
  | .stageEvents queue => deliveries.countP (·.event.stage.queue = queue)
  | .stageFailures queue =>
    deliveries.countP fun d => d.event.stage.queue = queue ∧ d.cameTo .failed
  | .insufficientData => deliveries.countP Delivery.isShort
  | .malformedEvents => deliveries.countP (·.cameTo .malformed)
  | .fallbacks => (deliveries.flatMap Delivery.answers).countP Answer.failed
  | .timings => (deliveries.flatMap Delivery.answers).length
  | .signals _ => 0

theorem ledger_cons (d : Delivery) (rest : List Delivery) (counter : Counter) :
    ledger (d :: rest) counter = ledger [d] counter + ledger rest counter := by
  cases counter <;> simp [ledger, List.countP_cons, Nat.add_comm]

/-- What is told to the metrics of a stage that failed. -/
def toldOf (event : Event) : Except PipelineError Outcome → List Exchange
  | .ok _ => []
  | .error e =>
    if e.isRetryable then [⟨.record (.stageFailures event.stage.queue 1), ()⟩]
    else [⟨.record (.malformedEvents 1), ()⟩]

/-- A delivery goes through its stage, and tells the metrics where the stage failed. -/
theorem trace_deliver (config : Config) (event : Event) (w : World) :
    w.trace (deliver config event) = w.trace (handle config event).run ++
      toldOf event (w.after (handle config event).run).1 := by
  rw [World.trace, deliver, Process.trace_bind]
  congr 1
  rw [World.after]
  cases ((handle config event).run.run World.answer w).1 with
  | ok outcome => rfl
  | error e =>
      by_cases hretry : e.isRetryable
      · simp only [toldOf, hretry, if_true]
        rfl
      · simp only [toldOf, hretry, Bool.false_eq_true, if_false]
        rfl

/-- What is told of a stage that failed asks no source. -/
theorem replies_toldOf (event : Event) (result : Except PipelineError Outcome) :
    replies (toldOf event result) = [] := by
  unfold toldOf
  split
  · rfl
  · split <;> rfl

/-- The parts of a delivery that are counted make up its entry in the ledger. -/
theorem ledger_singleton (event : Event) (result : Except PipelineError Outcome)
    (answers : List Answer) {counter : Counter} (hcounter : counter.IsOfDeliveries) :
    (Observation.stageEvents event.stage.queue 1).adds counter +
        (sourceEntries answers counter + resultEntries result counter) +
        added (toldOf event result) counter =
      ledger [⟨event, result, verdictOf result, answers⟩] counter := by
  -- A table: every kind of result against every counter.
  rcases result with (_ | _ | _ | _) | (_ | (_ | _) | _) <;> cases counter <;>
    simp [ledger, toldOf, Observation.adds, Observation.entry?, sourceEntries, resultEntries,
      verdictOf, Delivery.cameTo, Delivery.isShort, PipelineError.isRetryable]

/-- What one delivery adds to every counter. -/
theorem added_deliver (config : Config) (event : Event) (w : World) {counter : Counter}
    (hcounter : counter.IsOfDeliveries) :
    added (w.trace (deliver config event)) counter =
      ledger [.inWorld config w event] counter := by
  obtain ⟨rest, htrace, hstage⟩ := Attempt.path_record_bind
    (w.path_after (handle config event).run)
  have hreplies : replies (w.trace (deliver config event)) = replies rest := by
    rw [trace_deliver, htrace, replies_append, replies_append, replies_toldOf, List.append_nil]
    rfl
  calc added (w.trace (deliver config event)) counter
      = (Observation.stageEvents event.stage.queue 1).adds counter + added rest counter +
          added (toldOf event (w.after (handle config event).run).1) counter := by
        rw [trace_deliver, htrace, added_append, added_append, added_record]
    _ = ledger [.inWorld config w event] counter := by
        rw [stageOf_books config event rest _ hstage counter hcounter,
          ledger_singleton event _ _ hcounter, Delivery.inWorld, hreplies,
          (after_deliver config event w).1]

/-- What the result of a stage makes of its delivery. -/
def Fate.of : Except PipelineError Outcome → Fate
  | .ok (.endedEarly _) => .endedEarly
  | .ok _ => .finished
  | .error e => if e.isRetryable then .failed else .malformed

/-- A delivery comes to the one fate that its result makes of it. -/
theorem cameTo_iff (config : Config) (w : World) (event : Event) (fate : Fate) :
    (Delivery.inWorld config w event).cameTo fate ↔
      fate = .of (w.after (handle config event).run).1 := by
  have hverdict := (after_deliver config event w).1
  cases fate <;> simp only [Delivery.inWorld, Delivery.cameTo, hverdict] <;>
    rcases (w.after (handle config event).run).1 with (_ | _ | _ | _) | (_ | _ | _) <;>
    simp [verdictOf, Fate.of, PipelineError.isRetryable]

/-! ### Runs of deliveries -/

/-- `Deliveries config w deliveries w'`: from the world `w` events are delivered one after the other
and leave the world `w'`. Between two deliveries anything may happen that tells the metrics nothing:
time passes, failures are injected, prices are recorded. -/
inductive Deliveries (config : Config) : World → List Delivery → World → Prop
  | none (w : World) : Deliveries config w [] w
  | next {w w' : World} {rest : List Delivery} (event : Event) :
      Deliveries config (w.after (deliver config event)).2 rest w' →
      Deliveries config w (.inWorld config w event :: rest) w'
  | meanwhile {w v w' : World} {deliveries : List Delivery} :
      v.metrics = w.metrics → Deliveries config v deliveries w' →
      Deliveries config w deliveries w'

namespace Deliveries

variable {config : Config} {w w' : World} {deliveries : List Delivery}

/-- What the counters show after a run of deliveries. -/
theorem count (h : Deliveries config w deliveries w') {m : Metrics} (hm : w.metrics = some m) :
    ∃ m', w'.metrics = some m' ∧ ∀ counter : Counter, counter.IsOfDeliveries →
      m'.count counter = m.count counter + .ofNat (ledger deliveries counter) := by
  induction h generalizing m with
  | none w => exact ⟨m, hm, fun counter _ => by cases counter <;> simp [ledger]⟩
  | @next w w' rest event _ ih =>
      have hafter : (w.after (deliver config event)).2.metrics =
          some (m.recordAll (observed (w.trace (deliver config event)))) := by
        rw [World.metrics_after, hm, Option.map_some]
      obtain ⟨m', hm', hcount⟩ := ih hafter
      refine ⟨m', hm', fun counter hcounter => ?_⟩
      have hadded := added_deliver config event w hcounter
      rw [added] at hadded
      rw [hcount counter hcounter, Metrics.count_recordAll, hadded, UInt64.add_assoc,
        ← UInt64.ofNat_add, ← ledger_cons]
  | meanwhile hsame _ ih => exact ih (hsame.trans hm)

/-- Every delivery of a run comes to one fate and to no other. -/
theorem existsUnique_fate (h : Deliveries config w deliveries w') :
    ∀ d ∈ deliveries, ∃! fate, d.cameTo fate := by
  induction h with
  | none w => simp
  | @next w w' rest event _ ih =>
      refine List.forall_mem_cons.mpr ⟨⟨_, (cameTo_iff config w event _).mpr rfl, ?_⟩, ih⟩
      exact fun fate => (cameTo_iff config w event fate).mp
  | meanwhile _ _ ih => exact ih

/-- The deliveries of each stage are those of all fates together. -/
theorem countP_stage (h : Deliveries config w deliveries w') (stage : Stage) :
    deliveries.countP (·.event.stage = stage) =
      deliveries.countP (fun d => d.event.stage = stage ∧ d.cameTo .finished) +
      deliveries.countP (fun d => d.event.stage = stage ∧ d.cameTo .endedEarly) +
      deliveries.countP (fun d => d.event.stage = stage ∧ d.cameTo .malformed) +
      deliveries.countP (fun d => d.event.stage = stage ∧ d.cameTo .failed) := by
  induction h with
  | none w => rfl
  | @next w w' rest event _ ih =>
      simp only [List.countP_cons, cameTo_iff, ih]
      rcases Fate.of (w.after (handle config event).run).1 <;> simp <;> omega
  | meanwhile _ _ ih => exact ih

end Deliveries

/-- The metrics show what deliveries came to, counted in 64 bits. -/
structure Records (m : Metrics) (deliveries : List Delivery) : Prop where
  events : ∀ stage : Stage, m.stageEvents.count stage.queue =
    .ofNat (deliveries.countP (·.event.stage = stage))
  failures : ∀ stage : Stage, m.stageFailures.count stage.queue =
    .ofNat (deliveries.countP fun d => d.event.stage = stage ∧ d.cameTo .failed)
  malformed : m.malformedEvents = .ofNat (deliveries.countP (·.cameTo .malformed))
  short : m.insufficientData = .ofNat (deliveries.countP (·.isShort))
  asked : m.decisionSeconds.count = .ofNat (deliveries.flatMap (·.answers)).length
  fallbacks : m.fallbacks = .ofNat ((deliveries.flatMap (·.answers)).countP (·.failed))

/-- **The metrics are the ledger of a run.** After any deliveries, whatever failed and whatever the
primary source answered, the counters show for each stage how many events were delivered and how
many are to be delivered again, and over all stages how many made no sense, how many cycles ended
for want of bars, how often the source was asked and how often it failed; a delivery has one answer
for each call of the source. Each delivery comes to one of four fates, and the deliveries of a stage
are those of the four fates together. -/
theorem metrics_keep_ledger (config : Config) {w w' : World} {deliveries : List Delivery}
    (hmetrics : w.metrics = some {}) (hrun : Deliveries config w deliveries w') :
    (∃ m, w'.metrics = some m ∧ Records m deliveries) ∧
      (∀ (v : World) (event : Event), (v.after (deliver config event)).2.asked.length =
        v.asked.length + (Delivery.inWorld config v event).answers.length) ∧
      (∀ d ∈ deliveries, ∃! fate, d.cameTo fate) ∧
      ∀ stage : Stage, deliveries.countP (·.event.stage = stage) =
        deliveries.countP (fun d => d.event.stage = stage ∧ d.cameTo .finished) +
        deliveries.countP (fun d => d.event.stage = stage ∧ d.cameTo .endedEarly) +
        deliveries.countP (fun d => d.event.stage = stage ∧ d.cameTo .malformed) +
        deliveries.countP (fun d => d.event.stage = stage ∧ d.cameTo .failed) := by
  refine ⟨?_, fun v event => v.length_asked_after _, hrun.existsUnique_fate, hrun.countP_stage⟩
  obtain ⟨m, hm, hcount⟩ := hrun.count hmetrics
  have hshown : ∀ counter : Counter, counter.IsOfDeliveries →
      m.count counter = .ofNat (ledger deliveries counter) := by
    intro counter hcounter
    rw [hcount counter hcounter, Metrics.count_fresh, UInt64.zero_add]
  refine ⟨m, hm, ?_⟩
  exact
    { events := fun stage => by
        simpa only [Metrics.count, ledger, Stage.queue_inj] using
          hshown (.stageEvents stage.queue) trivial
      failures := fun stage => by
        simpa only [Metrics.count, ledger, Stage.queue_inj] using
          hshown (.stageFailures stage.queue) trivial
      malformed := hshown .malformedEvents trivial
      short := hshown .insufficientData trivial
      asked := hshown .timings trivial
      fallbacks := hshown .fallbacks trivial }

/-- Delivers events one after the other. -/
def deliverEach (config : Config) : World → List Event → List Delivery × World
  | w, [] => ([], w)
  | w, event :: rest =>
    let later := deliverEach config (w.after (deliver config event)).2 rest
    (.inWorld config w event :: later.1, later.2)

/-- Any events can be delivered one after the other. -/
theorem deliveries_each (config : Config) (w : World) (events : List Event) :
    Deliveries config w (deliverEach config w events).1 (deliverEach config w events).2 := by
  induction events generalizing w with
  | nil => exact .none w
  | cons event rest ih => exact .next event (ih _)

/-- The wavering world with metrics, whose cache fails once when an instrument is invalidated. -/
def watched : World :=
  { wavering with
    metrics := some {}
    faults := Faults.setCache {} .invalidate [some (.server "down")] }

/-- A price that is delivered twice, indicators of a single bar, two decisions, and a price of an
unknown instrument. -/
def watchedEvents : List Event :=
  [.priceIngested "AAPL" "NASDAQ", .priceIngested "AAPL" "NASDAQ",
    .indicatorRequested "AAPL" "NASDAQ",
    .decisionRequested "AAPL" "NASDAQ" neutralAsk.indicators,
    .decisionRequested "AAPL" "NASDAQ" neutralAsk.indicators, .priceIngested "MSFT" "NASDAQ"]

/-- Six deliveries with one of each failure: what they came to, and what the counters show. -/
theorem metrics_keep_ledger_watched :
    let run := deliverEach {} watched watchedEvents
    watched.metrics = some {} ∧ Deliveries {} watched run.1 run.2 ∧
      run.1.map (fun d => Fate.of d.result) =
        [.failed, .finished, .endedEarly, .finished, .finished, .malformed] ∧
      ∃ m, run.2.metrics = some m ∧ m.stageEvents.count "price-ingested" = 3 ∧
        m.stageFailures.count "price-ingested" = 1 ∧ m.malformedEvents = 1 ∧
        m.insufficientData = 1 ∧ m.decisionSeconds.count = 2 ∧ m.fallbacks = 1 := by
  intro run
  have hrun : Deliveries {} watched run.1 run.2 := deliveries_each {} watched watchedEvents
  obtain ⟨⟨m, hm, hrecords⟩, -⟩ := metrics_keep_ledger {} rfl hrun
  refine ⟨rfl, hrun, by decide +kernel, m, hm, ?_⟩
  rw [show "price-ingested" = Stage.priceIngested.queue from rfl, hrecords.events,
    hrecords.failures, hrecords.malformed, hrecords.short, hrecords.asked, hrecords.fallbacks]
  decide +kernel

end Pipeline

end MarketSignals
