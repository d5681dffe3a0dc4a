import MarketSignals.Broker
import MarketSignals.Proofs.Pipeline.AppendOnly
import MarketSignals.Proofs.Pipeline.Redelivery

/-!
# The pipeline drains

Stages refill the queue that they are dispatched from, and events that fail come back. Still every
run over a queue ends, in whatever order its events are dispatched and whatever fails: an event is
dispatched a bounded number of times, and what it publishes is of a later stage. The number of
dispatches that a queue may still lead to is written down for each queued event, and every dispatch
makes the sum smaller. The same account, kept for signals, bounds how many of them are stored.

## Main results

* `path_deliver`: what one delivery does, from its stage to its verdict.
* `acknowledged_of_no_failure`: where no call fails, an event is done with after one delivery.
* `Dispatch.leaves_cases`, `Dispatch.signals_done`: what one dispatch leaves and what it stores.
* `Drain.total_le`: an account that every dispatch keeps is kept by a run.
* `pipeline_drains`: the bounds on the dispatches and signals of a run, and that it can be ended.
* `Broker.jobs_workOff`: a broker that works off its jobs is left with none.
-/

namespace MarketSignals

theorem Broker.stagesAhead_pos (stage : Stage) : 0 < stagesAhead stage := by
  cases stage <;> simp [stagesAhead]

/-- An event of the next stage leads to one delivery less. -/
theorem Broker.stagesAhead_next {stage next : Stage} (h : stage.next? = some next) :
    stagesAhead stage = stagesAhead next + 1 := by
  cases stage <;> cases h <;> rfl

/-! ### Failed calls -/

/-- A call of the store, the cache or the broker that failed. -/
def Exchange.Failed : Exchange → Prop
  | ⟨.store _, .error _⟩ | ⟨.cache _, .error _⟩ | ⟨.publish _, .error _⟩ => True
  | _ => False

namespace Attempt

variable {α β : Type}

/-- An attempt that ends with a failure that may pass has met with one in a call. -/
def Blames (x : Attempt α) : Prop :=
  ∀ t e, Process.Path x.run t (.done (.error e)) → e.isRetryable → ∃ y ∈ t, y.Failed

theorem blames_pure (a : α) : Blames (pure a : Attempt α) := by
  intro t e h
  cases h.of_done.2

theorem blames_refuse (cause : Malformed) : Blames (refuse cause : Attempt α) := by
  intro t e h hretry
  cases h.of_done.2
  cases hretry

theorem blames_bind {x : Attempt α} {f : α → Attempt β} (hx : Blames x)
    (hf : ∀ a, Blames (f a)) : Blames (x >>= f) := by
  intro t e h hretry
  rcases path_bind h with ⟨p, hp, hfailed⟩ | ⟨t₁, t₂, a, rfl, -, hrest⟩
  · obtain ⟨e', he, rfl⟩ := hfailed _ rfl
    cases he
    exact hx t e hp hretry
  · obtain ⟨y, hy, hfailed⟩ := hf a t₂ e hrest hretry
    exact ⟨y, List.mem_append_right _ hy, hfailed⟩

/-- A call blames itself where only an answer of failure makes it end with one. -/
theorem blames_call {c : Call} {g : c.Answer → Except PipelineError α}
    (hg : ∀ answer e, g answer = .error e → Exchange.Failed ⟨c, answer⟩) :
    Blames (ExceptT.mk (Process.perform c >>= fun answer => .done (g answer))) := by
  intro t e h _
  obtain ⟨answer, rfl, hresult⟩ := path_call h
  exact ⟨_, List.mem_singleton_self _, hg answer e hresult⟩

theorem blames_store (query : Store.Query) : Blames (store query) := by
  refine blames_call fun answer e h => ?_
  cases answer with
  | ok _ => cases h
  | error _ => trivial

theorem blames_cache (query : Cache.Query) : Blames (cache query) := by
  refine blames_call fun answer e h => ?_
  cases answer with
  | ok _ => cases h
  | error _ => trivial

theorem blames_publish (event : Event) : Blames (publish event) := by
  refine blames_call fun answer e h => ?_
  cases answer with
  | ok _ => cases h
  | error _ => trivial

/-- What cannot fail blames nothing. -/
theorem blames_lift (p : Process α) : Blames (ExceptT.lift p) := by
  intro t e h
  rw [ExceptT.run_lift, map_eq_pure_bind] at h
  obtain ⟨t₁, t₂, a, -, -, hrest⟩ := Process.path_bind_done h
  cases hrest.of_done.2

end Attempt

namespace Pipeline

variable {config : Config}

theorem validate_blames (symbol market : String) : Attempt.Blames (validate symbol market) := by
  unfold validate
  split
  · exact Attempt.blames_refuse _
  · refine Attempt.blames_bind (Attempt.blames_store _) fun found => ?_
    cases found with
    | none => exact Attempt.blames_refuse _
    | some instrument =>
        dsimp only
        split
        · exact Attempt.blames_pure _
        · exact Attempt.blames_refuse _

theorem latestPrice_blames (symbol : String) : Attempt.Blames (latestPrice symbol) := by
  refine Attempt.blames_bind (Attempt.blames_lift _) fun cached => ?_
  cases cached with
  | some bar => exact Attempt.blames_pure _
  | none =>
      refine Attempt.blames_bind (Attempt.blames_store _) fun latest => ?_
      cases latest with
      | some bar =>
          exact Attempt.blames_bind (Attempt.blames_cache _) fun _ => Attempt.blames_pure _
      | none => exact Attempt.blames_pure _

theorem onIndicatorRequested_blames (symbol market : String) :
    Attempt.Blames (onIndicatorRequested config symbol market) := by
  refine Attempt.blames_bind (validate_blames _ _) fun _ => ?_
  refine Attempt.blames_bind (Attempt.blames_store _) fun bars => ?_
  cases config.lookbacks.compute symbol bars with
  | error e =>
      cases e with
      | insufficientData required available =>
          exact Attempt.blames_bind (Attempt.blames_lift _) fun _ => Attempt.blames_pure _
      | nonFinitePrice _ _ => exact Attempt.blames_pure _
  | ok snapshot =>
      refine Attempt.blames_bind (Attempt.blames_store _) fun _ => ?_
      refine Attempt.blames_bind (Attempt.blames_cache _) fun _ => ?_
      exact Attempt.blames_bind (Attempt.blames_publish _) fun _ => Attempt.blames_pure _

theorem onDecisionRequested_blames (symbol market : String) (indicators : Snapshot) :
    Attempt.Blames (onDecisionRequested config symbol market indicators) := by
  refine Attempt.blames_bind (validate_blames _ _) fun _ => ?_
  split
  · refine Attempt.blames_bind (latestPrice_blames _) fun price => ?_
    cases price with
    | none => exact Attempt.blames_refuse _
    | some price =>
        refine Attempt.blames_bind (Attempt.blames_lift _) fun decision => ?_
        refine Attempt.blames_bind (Attempt.blames_store _) fun _ => ?_
        refine Attempt.blames_bind (Attempt.blames_store _) fun recent => ?_
        refine Attempt.blames_bind (Attempt.blames_cache _) fun _ => ?_
        refine Attempt.blames_bind (Attempt.blames_lift _) fun _ => ?_
        exact Attempt.blames_bind (Attempt.blames_publish _) fun _ => Attempt.blames_pure _
  · exact Attempt.blames_refuse _

/-- A stage fails for another try only after a call that failed. -/
theorem handle_blames (event : Event) : Attempt.Blames (handle config event) := by
  refine Attempt.blames_bind (Attempt.blames_lift _) fun _ => ?_
  unfold stageOf
  split
  · refine Attempt.blames_bind (validate_blames _ _) fun _ => ?_
    refine Attempt.blames_bind (Attempt.blames_cache _) fun _ => ?_
    exact Attempt.blames_bind (Attempt.blames_publish _) fun _ => Attempt.blames_pure _
  · exact onIndicatorRequested_blames _ _
  · exact onDecisionRequested_blames _ _ _
  · exact Attempt.blames_bind (validate_blames _ _) fun _ => Attempt.blames_pure _

/-! ### One delivery -/

/-- A delivery runs the stage, and tells the metrics where the stage failed. -/
theorem path_deliver {event : Event} {t : List Exchange} {verdict : Verdict}
    (h : Process.Path (deliver config event) t (.done verdict)) :
    ∃ t₁ t₂ result, t = t₁ ++ t₂ ∧ Process.Path (handle config event).run t₁ (.done result) ∧
      verdict = verdictOf result ∧ ∀ x ∈ t₂, ∃ observation, x.call = .record observation := by
  obtain ⟨t₁, t₂, result, rfl, hstage, hrest⟩ := Process.path_bind_done h
  refine ⟨t₁, t₂, result, rfl, hstage, ?_⟩
  cases result with
  | ok outcome =>
      obtain ⟨rfl, hdone⟩ := hrest.of_done
      cases hdone
      exact ⟨rfl, by simp⟩
  | error e =>
      have hverdict : ∀ {u : List Exchange} {observation : Observation} {told : Verdict},
          Process.Path (do Process.perform (.record observation); pure told) u (.done verdict) →
          verdict = told ∧ ∀ x ∈ u, ∃ observation, x.call = .record observation := by
        intro u observation told hpath
        cases hpath with
        | step hlast =>
            obtain ⟨rfl, hdone⟩ := hlast.of_done
            cases hdone
            exact ⟨rfl, by simp⟩
      dsimp only at hrest
      rw [verdictOf]
      split at hrest
      · rename_i hretry
        rw [if_pos hretry]
        exact hverdict hrest
      · rename_i hretry
        rw [if_neg hretry]
        exact hverdict hrest

/-- Where no call fails, an event is done with after one delivery. -/
theorem acknowledged_of_no_failure {event : Event} {t : List Exchange} {verdict : Verdict}
    (h : Process.Path (deliver config event) t (.done verdict)) (hnone : ∀ x ∈ t, ¬ x.Failed) :
    verdict = .acknowledged := by
  obtain ⟨t₁, t₂, result, rfl, hstage, rfl, -⟩ := path_deliver h
  cases result with
  | ok outcome => rfl
  | error e =>
      cases hretry : e.isRetryable with
      | false => simp [verdictOf, hretry]
      | true =>
          obtain ⟨x, hx, hfailed⟩ := handle_blames event t₁ e hstage hretry
          exact absurd hfailed (hnone x (List.mem_append_left _ hx))

/-- A delivery publishes an event of the next stage or nothing, and nothing where the event is to be
tried again. -/
theorem published_deliver {event : Event} {t : List Exchange} {verdict : Verdict}
    (h : Process.Path (deliver config event) t (.done verdict)) :
    published t = [] ∨ verdict = .acknowledged ∧
      ∃ next, published t = [next] ∧ event.stage.next? = some next.stage := by
  obtain ⟨t₁, t₂, result, rfl, hstage, rfl, hrecord⟩ := path_deliver h
  have hquiet : published t₂ = [] := by
    refine published_eq_nil fun x hx event => ?_
    obtain ⟨observation, hcall⟩ := hrecord x hx
    simp [hcall]
  rw [published_append, hquiet, List.append_nil]
  have hforwards := handle_forwards config event t₁ result hstage
  unfold Event.Forwards at hforwards
  split at hforwards
  · obtain ⟨next, hone, hnext, -, -⟩ := hforwards
    exact .inr ⟨rfl, next, hone, hnext⟩
  all_goals exact .inl hforwards

/-- A delivery writes to the store what its stage may write, or nothing. -/
theorem writes_deliver {event : Event} {t : List Exchange} {verdict : Verdict}
    (h : Process.Path (deliver config event) t (.done verdict)) :
    writes t = [] ∨ ∃ query, writes t = [query] ∧ event.MayWrite query := by
  obtain ⟨t₁, t₂, result, rfl, hstage, -, hrecord⟩ := path_deliver h
  have hkeeps : writes t₂ = [] := by
    refine writes_eq_nil fun x hx => ?_
    obtain ⟨observation, hcall⟩ := hrecord x hx
    simp [hcall, Call.KeepsStore]
  rw [writes_append, hkeeps, List.append_nil]
  exact handle_writesOnce event t₁ _ hstage

/-! ### Queued events -/

/-- An event on the queue, with how often it failed. -/
structure Queued where
  event : Event
  failures : Nat
deriving DecidableEq

/-- A published event joins the queue. -/
def Queued.fresh (event : Event) : Queued :=
  ⟨event, 0⟩

/-- A queued event is dispatched, in the world as it is then. -/
structure Dispatch where
  world : World
  queued : Queued

namespace Dispatch

/-- The exchanges of a dispatch. -/
def trace (config : Config) (d : Dispatch) : List Exchange :=
  d.world.trace (deliver config d.queued.event)

/-- What the queue learns from a dispatch, and the world after it. -/
def done (config : Config) (d : Dispatch) : Verdict × World :=
  d.world.after (deliver config d.queued.event)

/-- What a dispatch leaves for the queue: the event itself where it failed, but not for the last of
the times it may, and the events that were published. -/
def leaves (config : Config) (most : Nat) (d : Dispatch) : List Queued :=
  (match (d.done config).1 with
    | .acknowledged => []
    | .retry _ =>
      if d.queued.failures + 1 < most then [⟨d.queued.event, d.queued.failures + 1⟩] else []) ++
  (published (d.trace config)).map Queued.fresh

variable {most : Nat}

theorem path (config : Config) (d : Dispatch) :
    Process.Path (deliver config d.queued.event) (d.trace config) (.done (d.done config).1) :=
  d.world.path_after _

/-- A dispatched event is done with and may be followed by an event of the next stage; or it failed,
and nothing follows it. -/
theorem leaves_cases (config : Config) (most : Nat) (d : Dispatch) :
    (d.done config).1 = .acknowledged ∧ (d.leaves config most = [] ∨
      ∃ next, d.leaves config most = [.fresh next] ∧
        d.queued.event.stage.next? = some next.stage) ∨
    (d.done config).1 ≠ .acknowledged ∧ d.leaves config most =
      if d.queued.failures + 1 < most then [⟨d.queued.event, d.queued.failures + 1⟩] else [] := by
  have hpublished := published_deliver (d.path config)
  cases hverdict : (d.done config).1 with
  | acknowledged =>
      refine .inl ⟨rfl, ?_⟩
      rcases hpublished with hnone | ⟨-, next, hone, hnext⟩
      · exact .inl (by simp [leaves, hverdict, hnone])
      · exact .inr ⟨next, by simp [leaves, hverdict, hone], hnext⟩
  | retry error =>
      refine .inr ⟨by simp, ?_⟩
      rw [hverdict] at hpublished
      rcases hpublished with hnone | ⟨hdone, -⟩
      · simp [leaves, hverdict, hnone]
      · cases hdone

/-- Where no call fails, the event is done with. -/
theorem acknowledged (d : Dispatch) (h : ∀ x ∈ d.trace config, ¬ x.Failed) :
    (d.done config).1 = .acknowledged :=
  acknowledged_of_no_failure (d.path config) h

/-- A dispatch stores one signal at most, and only where a decision was asked for. -/
theorem signals_done (config : Config) (d : Dispatch) :
    ∃ given, (d.done config).2.store.signals = d.world.store.signals ++ given ∧
      given.length ≤ if d.queued.event.stage = .decisionRequested then 1 else 0 := by
  refine ⟨(writes (d.trace config)).filterMap Store.Query.signal?, ?_, ?_⟩
  · rw [done, store_after_writes, Store.signals_carryOut]
    rfl
  · rcases writes_deliver (d.path config) with hnone | ⟨query, hone, hmay⟩
    · simp [hnone]
    · rcases hmay with ⟨-, snapshot, rfl⟩ | ⟨hstage, signal, rfl⟩
      · simp [hone, List.filterMap_cons, Store.Query.signal?]
      · simp [hone, hstage, Store.Query.signal?]

end Dispatch

/-! ### Runs over the queue -/

/-- A run over a queue: queued events are dispatched one after the other, any of them next, and what
a dispatch leaves joins the queue. Failures may be injected and time may pass before each dispatch.
The run lists its dispatches and ends in a world with a queue. -/
inductive Drain (config : Config) (most : Nat) :
    World → List Queued → List Dispatch → World → List Queued → Prop
  | stop (w : World) (queue : List Queued) : Drain config most w queue [] w queue
  | dispatch {w w' : World} (before after : List Queued) {queue' : List Queued} {d : Dispatch}
      {rest : List Dispatch} (faults : Faults) (clock : Clock) :
      d.world = { w with faults, clock } →
      Drain config most (d.done config).2 (before ++ after ++ d.leaves config most) rest w' queue' →
      Drain config most w (before ++ d.queued :: after) (d :: rest) w' queue'

namespace Drain

variable {most : Nat} {w w' w'' : World} {queue queue' queue'' : List Queued}
  {dispatches later : List Dispatch}

/-- A run may go on where another one ended. -/
theorem trans (h : Drain config most w queue dispatches w' queue')
    (hlater : Drain config most w' queue' later w'' queue'') :
    Drain config most w queue (dispatches ++ later) w'' queue'' := by
  induction h with
  | stop => exact hlater
  | dispatch before after faults clock hworld _ ih =>
      exact .dispatch before after faults clock hworld (ih hlater)

/-- The first event of a queue may be dispatched at once. -/
theorem dispatch_first {queued : Queued} {rest next : List Queued}
    (hnext : rest ++ (Dispatch.mk w queued).leaves config most = next)
    (h : Drain config most ((Dispatch.mk w queued).done config).2 next dispatches w' queue') :
    Drain config most w (queued :: rest) (⟨w, queued⟩ :: dispatches) w' queue' :=
  .dispatch [] rest w.faults w.clock rfl (hnext ▸ h)

/-- Events on a queue can fail once more. -/
def Patient (most : Nat) (queue : List Queued) : Prop :=
  ∀ queued ∈ queue, queued.failures < most

/-- What a dispatch leaves can fail once more. -/
theorem patient_leaves {d : Dispatch} (h : d.queued.failures < most) :
    Patient most (d.leaves config most) := by
  intro queued hqueued
  rcases d.leaves_cases config most with ⟨-, hnone | ⟨next, hone, -⟩⟩ | ⟨-, hagain⟩
  · simp [hnone] at hqueued
  · obtain rfl := List.mem_singleton.mp (hone ▸ hqueued)
    exact Nat.zero_lt_of_lt h
  · rw [hagain] at hqueued
    split at hqueued
    · obtain rfl := List.mem_singleton.mp hqueued
      assumption
    · cases hqueued

theorem patient_step (before : List Queued) {after : List Queued} {d : Dispatch}
    (h : Patient most (before ++ d.queued :: after)) :
    Patient most (before ++ after ++ d.leaves config most) := by
  simp only [Patient, List.forall_mem_append, List.forall_mem_cons] at h ⊢
  exact ⟨⟨h.1, h.2.2⟩, patient_leaves h.2.1⟩

/-- Events on the queue of a run can fail once more. -/
theorem patient (h : Drain config most w queue dispatches w' queue')
    (hqueue : Patient most queue) : Patient most queue' := by
  induction h with
  | stop => exact hqueue
  | dispatch before _ _ _ _ _ ih => exact ih (patient_step before hqueue)

/-- An account of a queue, kept for each event on it. -/
def account (worth : Queued → Nat) (queue : List Queued) : Nat :=
  (queue.map worth).sum

@[simp] theorem account_nil (worth : Queued → Nat) : account worth [] = 0 :=
  rfl

@[simp] theorem account_cons (worth : Queued → Nat) (queued : Queued) (queue : List Queued) :
    account worth (queued :: queue) = worth queued + account worth queue :=
  rfl

@[simp] theorem account_append (worth : Queued → Nat) (queue queue' : List Queued) :
    account worth (queue ++ queue') = account worth queue + account worth queue' := by
  simp [account]

/-- Where each dispatch costs no more than what it takes from the account, neither does a run. -/
theorem total_le (cost : Dispatch → Nat) (worth : Queued → Nat)
    (h : Drain config most w queue dispatches w' queue') (hqueue : Patient most queue)
    (hstep : ∀ d ∈ dispatches, d.queued.failures < most →
      cost d + account worth (d.leaves config most) ≤ worth d.queued) :
    (dispatches.map cost).sum + account worth queue' ≤ account worth queue := by
  induction h with
  | stop => simp
  | @dispatch _ _ before after _ d rest _ _ _ _ ih =>
      have hfirst := hstep d List.mem_cons_self (hqueue d.queued (by simp))
      have hlater := ih (patient_step before hqueue) fun d hd => hstep d (List.mem_cons_of_mem _ hd)
      simp only [account_append, account_cons, List.map_cons, List.sum_cons] at hfirst hlater ⊢
      omega

end Drain

/-! ### The two accounts -/

/-- How many dispatches a queued event may lead to, its own included. -/
def Queued.dispatches (most : Nat) (queued : Queued) : Nat :=
  Broker.stagesAhead queued.event.stage * most - queued.failures

/-- How many signals a queued event may lead to. -/
def Queued.signals (most : Nat) (queued : Queued) : Nat :=
  match queued.event.stage with
  | .priceIngested | .indicatorRequested => most
  | .decisionRequested => most - queued.failures
  | .signalGenerated => 0

variable {most : Nat}

/-- A dispatch takes itself from the account of dispatches. -/
theorem Dispatch.dispatches_le (d : Dispatch) (h : d.queued.failures < most) :
    1 + Drain.account (Queued.dispatches most) (d.leaves config most) ≤
      d.queued.dispatches most := by
  have hmost : most ≤ Broker.stagesAhead d.queued.event.stage * most :=
    Nat.le_mul_of_pos_left _ (Broker.stagesAhead_pos _)
  rcases d.leaves_cases config most with ⟨-, hnone | ⟨next, hone, hnext⟩⟩ | ⟨-, hagain⟩
  · simp only [hnone, Drain.account_nil, Queued.dispatches]
    omega
  · simp only [hone, Drain.account_cons, Drain.account_nil, Queued.dispatches, Queued.fresh,
      Broker.stagesAhead_next hnext, Nat.succ_mul]
    omega
  · rw [hagain]
    split
    · simp only [Drain.account_cons, Drain.account_nil, Queued.dispatches]
      omega
    · simp only [Drain.account_nil, Queued.dispatches]
      omega

/-- How many signals a dispatch of an event may store. -/
def Queued.signalsNow (queued : Queued) : Nat :=
  if queued.event.stage = .decisionRequested then 1 else 0

/-- The account of an event allows for what it stores now and after it failed once more. -/
theorem Queued.signals_again {queued : Queued} (h : queued.failures < most) :
    queued.signalsNow + Queued.signals most ⟨queued.event, queued.failures + 1⟩ ≤
      queued.signals most := by
  unfold signalsNow signals
  cases queued.event.stage with
  | priceIngested | indicatorRequested | signalGenerated => simp
  | decisionRequested =>
      simp only [if_true]
      omega

/-- The account of an event allows for what it stores now and what the next one may lead to. -/
theorem Queued.signals_next {queued : Queued} {next : Event} (h : queued.failures < most)
    (hnext : queued.event.stage.next? = some next.stage) :
    queued.signalsNow + (Queued.fresh next).signals most ≤ queued.signals most := by
  unfold signalsNow signals fresh
  cases hstage : queued.event.stage with
  | priceIngested | indicatorRequested =>
      rw [hstage] at hnext
      simp [← Option.some.inj hnext]
  | decisionRequested =>
      rw [hstage] at hnext
      simp only [← Option.some.inj hnext, if_true]
      omega
  | signalGenerated =>
      rw [hstage] at hnext
      cases hnext

theorem Queued.dispatches_fresh_le (most : Nat) (event : Event) :
    (Queued.fresh event).dispatches most ≤ 4 * most := by
  have hfour : Broker.stagesAhead event.stage ≤ 4 := by
    cases event.stage <;> simp [Broker.stagesAhead]
  exact Nat.mul_le_mul_right _ hfour

theorem Queued.signals_fresh_le (most : Nat) (event : Event) :
    (Queued.fresh event).signals most ≤ most := by
  unfold signals fresh
  cases event.stage <;> simp

/-- How many signals a dispatch stores. -/
def Dispatch.stores (config : Config) (d : Dispatch) : Nat :=
  (d.done config).2.store.signals.length - d.world.store.signals.length

theorem Dispatch.length_signals (config : Config) (d : Dispatch) :
    (d.done config).2.store.signals.length = d.world.store.signals.length + d.stores config := by
  obtain ⟨given, hstored, -⟩ := d.signals_done config
  simp [stores, hstored]

/-- A dispatch takes what it stores from the account of signals. -/
theorem Dispatch.stores_le (d : Dispatch) (h : d.queued.failures < most) :
    d.stores config + Drain.account (Queued.signals most) (d.leaves config most) ≤
      d.queued.signals most := by
  have hnow : d.stores config ≤ d.queued.signalsNow := by
    obtain ⟨given, hstored, hgiven⟩ := d.signals_done config
    simpa [stores, hstored, Queued.signalsNow] using hgiven
  have hagain := Queued.signals_again h
  rcases d.leaves_cases config most with ⟨-, hnone | ⟨next, hone, hnext⟩⟩ | ⟨-, hleaves⟩
  · rw [hnone, Drain.account_nil]
    omega
  · have hsignals := Queued.signals_next h hnext
    rw [hone, Drain.account_cons, Drain.account_nil]
    omega
  · rw [hleaves]
    split
    · rw [Drain.account_cons, Drain.account_nil]
      omega
    · rw [Drain.account_nil]
      omega

namespace Drain

variable {w w' : World} {queue queue' : List Queued} {dispatches : List Dispatch}

/-- The store of a run takes on what its dispatches store. -/
theorem length_signals (h : Drain config most w queue dispatches w' queue') :
    w'.store.signals.length =
      w.store.signals.length + (dispatches.map fun d => d.stores config).sum := by
  induction h with
  | stop => rfl
  | @dispatch _ _ _ _ _ d _ _ _ hworld _ ih =>
      rw [ih, d.length_signals, hworld, List.map_cons, List.sum_cons]
      exact Nat.add_assoc _ _ _

/-- Where every dispatched event is done with, it does not matter how often events may fail. -/
theorem of_acknowledged (h : Drain config most w queue dispatches w' queue')
    (hdone : ∀ d ∈ dispatches, (d.done config).1 = .acknowledged) (other : Nat) :
    Drain config other w queue dispatches w' queue' := by
  induction h with
  | stop => exact .stop _ _
  | @dispatch _ _ before after _ d _ faults clock hworld _ ih =>
      have hleaves : d.leaves config other = d.leaves config most := by
        simp [Dispatch.leaves, hdone d List.mem_cons_self]
      refine .dispatch before after faults clock hworld ?_
      rw [hleaves]
      exact ih fun d hd => hdone d (List.mem_cons_of_mem _ hd)

/-- Every queue can be run until it is empty. -/
theorem exists_empty (config : Config) (w : World) {queue : List Queued}
    (h : Patient most queue) :
    ∃ dispatches w', Drain config most w queue dispatches w' [] := by
  induction hleft : account (Queued.dispatches most) queue using Nat.strongRecOn
    generalizing w queue with
  | ind left ih =>
      cases queue with
      | nil => exact ⟨[], w, .stop w []⟩
      | cons queued rest =>
          let d : Dispatch := ⟨w, queued⟩
          have hcost : 1 + account (Queued.dispatches most) (d.leaves config most) ≤
              queued.dispatches most := d.dispatches_le (h queued List.mem_cons_self)
          have hless : account (Queued.dispatches most) (rest ++ d.leaves config most) < left := by
            rw [← hleft, account_append, account_cons]
            omega
          have hpatient : Patient most (rest ++ d.leaves config most) :=
            patient_step [] h
          obtain ⟨dispatches, w', hrest⟩ := ih _ hless (d.done config).2 hpatient rfl
          exact ⟨d :: dispatches, w', .dispatch_first rfl hrest⟩

/-- Accounts of published events. -/
theorem account_fresh_le {worth : Queued → Nat} {bound : Nat}
    (h : ∀ event, worth (.fresh event) ≤ bound) (events : List Event) :
    account worth (events.map .fresh) ≤ events.length * bound := by
  induction events with
  | nil => simp
  | cons event rest ih =>
      have hevent := h event
      rw [List.map_cons, account_cons, List.length_cons, Nat.succ_mul]
      omega

theorem patient_fresh (h : 0 < most) (events : List Event) :
    Patient most (events.map .fresh) := by
  intro queued hqueued
  obtain ⟨event, -, rfl⟩ := List.mem_map.mp hqueued
  exact h

end Drain

/-- **The pipeline drains.** Take any world and any queued events, and dispatch queued events in any
order, whatever fails and whatever time it is. An event leaves the queue when it is done with or
when it fails for the last time it may, and what it publishes joins the queue. There are at most
four dispatches for each of the events and each time it may fail, and at most one signal is stored
for each; where no call fails, at most one for each event. The run goes on wherever the queue is not
empty, and can be brought to an empty queue. -/
theorem pipeline_drains {config : Config} {most : Nat} (hmost : 1 ≤ most) {w w' : World}
    {events : List Event} {dispatches : List Dispatch} {queue : List Queued}
    (h : Drain config most w (events.map .fresh) dispatches w' queue) :
    dispatches.length ≤ 4 * events.length * most ∧
    w'.store.signals.length ≤ w.store.signals.length + events.length * most ∧
    ((∀ d ∈ dispatches, ∀ x ∈ d.trace config, ¬ x.Failed) →
      w'.store.signals.length ≤ w.store.signals.length + events.length) ∧
    (queue ≠ [] → ∃ d w'' queue',
      Drain config most w (events.map .fresh) (dispatches ++ [d]) w'' queue') ∧
    ∃ rest w'', Drain config most w (events.map .fresh) (dispatches ++ rest) w'' [] := by
  have hpatient : Drain.Patient most (events.map .fresh) := Drain.patient_fresh hmost events
  have hsignals : ∀ {bound}, 1 ≤ bound → Drain config bound w (events.map .fresh) dispatches w'
      queue → w'.store.signals.length ≤ w.store.signals.length + events.length * bound := by
    intro bound hbound hrun
    have htotal := hrun.total_le (fun d => d.stores config) (Queued.signals bound)
      (Drain.patient_fresh hbound events) fun d _ => d.stores_le
    have hworth := Drain.account_fresh_le (Queued.signals_fresh_le bound) events
    have hlength := hrun.length_signals
    omega
  refine ⟨?_, hsignals hmost h, fun hcalm => ?_, fun hqueue => ?_, ?_⟩
  · have htotal := h.total_le (fun _ => 1) (Queued.dispatches most) hpatient
      fun d _ => d.dispatches_le
    have hworth := Drain.account_fresh_le (Queued.dispatches_fresh_le most) events
    calc dispatches.length = (dispatches.map fun _ => 1).sum := by simp
      _ ≤ events.length * (4 * most) := by omega
      _ = 4 * events.length * most := by rw [← Nat.mul_assoc, Nat.mul_comm events.length]
  · -- Nothing comes back here, so the same run is one in which an event may fail but once.
    have honce := h.of_acknowledged (fun d hd => d.acknowledged (hcalm d hd)) 1
    simpa using hsignals le_rfl honce
  · cases queue with
    | nil => exact absurd rfl hqueue
    | cons queued rest =>
        exact ⟨⟨w', queued⟩, _, _, h.trans (.dispatch_first rfl (.stop _ _))⟩
  · obtain ⟨rest, w'', hrest⟩ := Drain.exists_empty config w' (h.patient hpatient)
    exact ⟨rest, w'', h.trans hrest⟩

/-- A world with one priced instrument and a sure source, whose cache fails the first time that
signals are cached. -/
def strained : World where
  store := (Store.addInstrument {} ⟨"AAPL", "NASDAQ", "", true⟩).appendPrice
    ⟨"AAPL", "NASDAQ", 10, 11, 9, 10, 1000, 0, .epoch⟩
  primary := some ⟨.remote, fun _ now request =>
    ⟨.ok ⟨request.symbol, .buy, 0.75, [], .remote, now⟩, 0.1⟩⟩
  faults := Faults.none.setCache .setSignals [some (.server "down")]
  clock := { readings := fun _ => .epoch }

/-- A decision on the instrument is asked for. -/
def neutralRequest : Event :=
  .decisionRequested "AAPL" "NASDAQ"
    ⟨"AAPL", ⟨50, ⟨0, 0, 0⟩, 10, 10, 10, 10, ⟨10, 10, 10⟩, ⟨50, 50⟩, -50, 0, 0⟩, 50, .epoch⟩

/-- The signal of the decision. -/
def sureSignal : Signal :=
  ⟨"AAPL", "NASDAQ", .buy, 0.75, 0.75, [], .remote, .epoch⟩

/-- The event may fail twice. It fails once, with its signal stored already, so that it leads to two
signals, as many as it may; then its signal is announced, and the queue is empty. -/
theorem pipeline_drains_strained :
    let first : Dispatch := ⟨strained, .fresh neutralRequest⟩
    let second : Dispatch := ⟨(first.done {}).2, ⟨neutralRequest, 1⟩⟩
    let third : Dispatch :=
      ⟨(second.done {}).2, .fresh (.signalGenerated "AAPL" "NASDAQ" sureSignal)⟩
    let final := (third.done {}).2
    Drain {} 2 strained ([neutralRequest].map .fresh) [first, second, third] final [] ∧
      [first, second, third].length ≤ 4 * [neutralRequest].length * 2 ∧
      final.store.signals.length = 2 ∧
      final.store.signals.length ≤
        strained.store.signals.length + [neutralRequest].length * 2 := by
  intro first second third final
  have hfirst : [] ++ first.leaves {} 2 = [second.queued] := by
    decide +kernel
  have hsecond : [] ++ second.leaves {} 2 = [third.queued] := by
    decide +kernel
  have hthird : [] ++ third.leaves {} 2 = [] := by
    decide +kernel
  have hlast : Drain {} 2 (second.done {}).2 [third.queued] [third] final [] :=
    .dispatch_first hthird (.stop _ _)
  have hlater : Drain {} 2 (first.done {}).2 [second.queued] [second, third] final [] :=
    .dispatch_first hsecond hlast
  have hrun : Drain {} 2 strained ([neutralRequest].map .fresh) [first, second, third] final [] :=
    .dispatch_first hfirst hlater
  obtain ⟨hdispatches, hsignals, -⟩ := pipeline_drains (by decide) hrun
  exact ⟨hrun, hdispatches, by decide +kernel, hsignals⟩

end Pipeline

/-! ### Working off jobs -/

/-- The event that a document on a queue denotes is of the stage of the queue. -/
theorem Event.stage_of_ofJob? {stage : Stage} {document : Json} {event : Event}
    (h : ofJob? stage document = some event) : event.stage = stage := by
  unfold ofJob? at h
  cases stage <;> simp only [bind, Option.bind_eq_some_iff] at h
  · obtain ⟨_, -, _, -, _, -, h⟩ := h
    cases h
    rfl
  · obtain ⟨_, -, _, -, _, -, h⟩ := h
    cases h
    rfl
  · obtain ⟨_, -, _, -, _, -, _, -, h⟩ := h
    cases h
    rfl
  · obtain ⟨_, -, _, -, _, -, _, -, h⟩ := h
    cases h
    rfl

namespace Broker

variable {config : Config}

/-- However often an event is delivered, an event of the next stage is published, or nothing. -/
theorem published_deliverJob {event : Event} {attempts : Nat} {t : List Exchange}
    {completion : Completion}
    (h : Process.Path (deliverJob config event attempts) t (.done completion)) :
    published t = [] ∨ ∃ next, published t = [next] ∧ event.stage.next? = some next.stage := by
  induction attempts generalizing t with
  | zero =>
      obtain ⟨rfl, -⟩ := h.of_done
      exact .inl rfl
  | succ attempts ih =>
      obtain ⟨t₁, t₂, verdict, rfl, hfirst, hrest⟩ := Process.path_bind_done h
      have hpublished := Pipeline.published_deliver hfirst
      cases verdict with
      | acknowledged =>
          obtain ⟨rfl, -⟩ := hrest.of_done
          rw [List.append_nil]
          exact hpublished.imp_right And.right
      | retry error =>
          rcases hpublished with hnone | ⟨hdone, -⟩
          · rw [published_append, hnone, List.nil_append]
            exact ih hrest
          · cases hdone

/-- How many jobs may be worked off where some wait, those that they lead to included. -/
def jobsAhead (jobs : List Job) : Nat :=
  (jobs.map fun job => stagesAhead job.stage).sum

@[simp] theorem jobsAhead_cons (job : Job) (jobs : List Job) :
    jobsAhead (job :: jobs) = stagesAhead job.stage + jobsAhead jobs :=
  rfl

/-- What a job leads to is less work than the job. -/
theorem jobsAhead_enqueue (b : Broker) {event : Event} {events : List Event}
    (h : events = [] ∨ ∃ next, events = [next] ∧ event.stage.next? = some next.stage) :
    jobsAhead (b.enqueue events).jobs < stagesAhead event.stage + jobsAhead b.jobs := by
  rcases h with rfl | ⟨next, rfl, hnext⟩
  · have hpos := stagesAhead_pos event.stage
    simp only [enqueue, List.map_nil, List.append_nil]
    omega
  · simp [enqueue, jobsAhead, Job.ofEvent, stagesAhead_next hnext]
    omega

/-- With as many steps as there may be jobs, none is left. -/
theorem jobs_work {steps : Nat} {b : Broker} {w : World} (hw : w.log = [])
    (hsteps : jobsAhead b.jobs ≤ steps) : (work config steps b w).1.jobs = [] := by
  induction steps generalizing b w with
  | zero =>
      obtain ⟨jobs, completed, unread⟩ := b
      cases jobs with
      | nil => rfl
      | cons job jobs =>
          have hpos := stagesAhead_pos job.stage
          rw [jobsAhead_cons] at hsteps
          omega
  | succ steps ih =>
      obtain ⟨jobs, completed, unread⟩ := b
      cases jobs with
      | nil => rfl
      | cons job jobs =>
          have hpos := stagesAhead_pos job.stage
          rw [jobsAhead_cons] at hsteps
          simp only [work]
          cases hevent : job.event? with
          | none => exact ih hw (by dsimp only; omega)
          | some event =>
              obtain ⟨document, -, hread⟩ := Option.bind_eq_some_iff.mp hevent
              let process := deliverJob config event (attempts config)
              have hlog : (w.after process).2.log = published (w.trace process) := by
                rw [World.log_after, hw, List.nil_append]
              refine ih rfl ?_
              have hless := jobsAhead_enqueue ⟨jobs, completed, unread⟩
                (published_deliverJob (w.path_after process))
              rw [Event.stage_of_ofJob? hread, ← hlog] at hless
              exact Nat.le_of_lt_succ (Nat.lt_of_lt_of_le hless hsteps)

/-- The steps that a broker takes are enough to work off every job. -/
theorem jobs_workOff (b : Broker) {w : World} (hw : w.log = []) :
    (workOff config b w).1.jobs = [] := by
  refine jobs_work hw (Nat.le_of_eq ?_)
  rw [jobsAhead, List.sum_eq_foldl, List.foldl_map]

end Broker

end MarketSignals
