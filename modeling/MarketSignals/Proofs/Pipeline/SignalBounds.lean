import MarketSignals.Proofs.Indicator.UnitInterval
import MarketSignals.Proofs.Pipeline.Calls
import MarketSignals.Proofs.Pipeline.Running

/-!
# Signals stay between zero and one

Whatever a source of decisions answers and whatever the readings are, a signal that is stored,
published or cached has a strength and a confidence from zero to one. A signal is only ever made of
a decision, which clamps both. From there it is handed on as it is: it is published by the stage
that made it, and cached as the store returned it.

What a call hands on therefore depends on what the same operation did before the call, and on what
the store holds. The first is a property of the paths of an operation, the second one of runs.

## Main results

* `Call.Grounded`: where the signals of a call come from.
* `grounded_operation`: every call of an operation is grounded in what the operation did before.
* `Reachable.mem_recentSignals`: what the store returned was stored in the run or before it.
* `signals_stay_bounded`: the bounds of every signal of a run, and what becomes of the confidence of
  the decision it was made of.
-/

namespace MarketSignals

open Series

/-! ### Signals of decisions -/

/-- Strength and confidence are numbers from zero to one. -/
structure Signal.Bounded (s : Signal) : Prop where
  strength : InUnit s.strength
  confidence : InUnit s.confidence

instance (s : Signal) : Decidable s.Bounded :=
  decidable_of_iff (InUnit s.strength ∧ InUnit s.confidence)
    ⟨fun h => ⟨h.1, h.2⟩, fun h => ⟨h.strength, h.confidence⟩⟩

theorem Signal.bounded_ofDecision (d : Decision) (market : String) (strength : Float) :
    (Signal.ofDecision d market strength).Bounded :=
  ⟨inUnit_clampUnit _, inUnit_clampUnit _⟩

/-- The request that the primary source was asked, with what came back. -/
def Exchange.consulted? : Exchange → Option (DecisionRequest × Option (Origin × Answer))
  | ⟨.consult request, reply⟩ => some (request, reply)
  | _ => none

/-- The requests that the primary source was asked, the first first, with what came back. -/
def consulted (history : List Exchange) : List (DecisionRequest × Option (Origin × Answer)) :=
  history.filterMap Exchange.consulted?

@[simp] theorem consulted_append (t u : List Exchange) :
    consulted (t ++ u) = consulted t ++ consulted u :=
  List.filterMap_append

/-- A decision on a request follows from what the primary source replied: it is the source's own,
under the source's origin, or that of the rules where there is no source or it failed. -/
def Decision.Follows (d : Decision) (request : DecisionRequest) : Option (Origin × Answer) → Prop
  | some (origin, ⟨.ok decision, _⟩) => d = { decision with source := origin }
  | _ => ∃ now, d = Rules.decide request now

/-- The signal was made of the decision that follows from the one reply of the primary source. -/
def Signal.MadeIn (past : List Exchange) (s : Signal) : Prop :=
  ∃ request reply d market readings, consulted past = [(request, reply)] ∧
    Decision.Follows d request reply ∧ s = Signal.ofDecision d market (d.strength readings)

theorem Signal.MadeIn.bounded {past : List Exchange} {s : Signal} (h : s.MadeIn past) :
    s.Bounded := by
  obtain ⟨request, reply, d, market, readings, -, -, rfl⟩ := h
  exact bounded_ofDecision _ _ _

/-- The confidence of the decision stays as it is where it is from zero to one. -/
theorem Signal.MadeIn.confidence {past : List Exchange} {s : Signal} (h : s.MadeIn past) :
    ∃ request reply d, consulted past = [(request, reply)] ∧ Decision.Follows d request reply ∧
      (InUnit d.confidence → s.confidence = d.confidence) := by
  obtain ⟨request, reply, d, market, readings, honce, hfollows, rfl⟩ := h
  exact ⟨request, reply, d, honce, hfollows, clampUnit_eq_self⟩

/-- What asks no source does not matter. -/
theorem Signal.MadeIn.append {past t : List Exchange} {s : Signal} (h : s.MadeIn past)
    (ht : consulted t = []) : s.MadeIn (past ++ t) := by
  obtain ⟨request, reply, d, market, readings, honce, hmade⟩ := h
  exact ⟨request, reply, d, market, readings, by rw [consulted_append, honce, ht]; rfl, hmade⟩

/-! ### Calls that hand on signals -/

/-- The signals that a call hands on to the store, the queues or the cache. -/
def Call.signals : Call → List Signal
  | .store (.appendSignal s) => [s]
  | .publish (.signalGenerated _ _ s) => [s]
  | .cache (.setSignals _ signals) => signals
  | _ => []

/-- The signal that a call gives to the store or publishes. -/
def Call.given? : Call → Option Signal
  | .store (.appendSignal s) => some s
  | .publish (.signalGenerated _ _ s) => some s
  | _ => none

/-- The signals of a call come from what was done before: a signal that is stored or published was
made of a decision, and signals that are cached were read from the store. -/
def Call.Grounded (past : List Exchange) : Call → Prop
  | .store (.appendSignal s) => s.MadeIn past
  | .publish (.signalGenerated _ _ s) => s.MadeIn past
  | .cache (.setSignals _ signals) =>
    ∃ symbol limit, ⟨.store (.recentSignals symbol limit), .ok signals⟩ ∈ past
  | _ => True

/-- A signal that is stored or published was made of a decision. -/
theorem Call.Grounded.madeIn {past : List Exchange} {call : Call} {s : Signal}
    (h : call.Grounded past) (hs : call.given? = some s) : s.MadeIn past := by
  unfold given? at hs
  split at hs
  · cases hs
    exact h
  · cases hs
    exact h
  · cases hs

/-- A signal that a call hands on was made of a decision or read from the store. -/
theorem Call.Grounded.signals {past : List Exchange} {call : Call} {s : Signal}
    (h : call.Grounded past) (hs : s ∈ call.signals) : s.MadeIn past ∨ ∃ symbol limit signals,
      ⟨.store (.recentSignals symbol limit), .ok signals⟩ ∈ past ∧ s ∈ signals := by
  unfold Call.signals at hs
  split at hs
  · obtain rfl := List.mem_singleton.mp hs
    exact .inl h
  · obtain rfl := List.mem_singleton.mp hs
    exact .inl h
  · obtain ⟨symbol, limit, hread⟩ := h
    exact .inr ⟨symbol, limit, _, hread, hs⟩
  · cases hs

/-- A signal that the store took on was given to it. -/
theorem exists_given_of_mem_stored {history : List Exchange} {s : Signal}
    (h : .appendSignal s ∈ stored history) : ∃ x ∈ history, x.call.given? = some s := by
  obtain ⟨x, hx, hstored⟩ := List.mem_filterMap.mp h
  refine ⟨x, hx, ?_⟩
  unfold Exchange.stored? at hstored
  split at hstored
  · cases hstored
    rfl
  · cases hstored

/-- A call that hands on no signal and asks no source. -/
def Call.IsPlain : Call → Prop
  | .store (.appendSignal _) | .publish (.signalGenerated _ _ _) | .cache (.setSignals _ _)
  | .consult _ => False
  | _ => True

theorem Call.IsPlain.grounded {call : Call} (h : call.IsPlain) (past : List Exchange) :
    call.Grounded past := by
  unfold IsPlain at h
  unfold Grounded
  split at h <;> simp_all

/-- Where every call is plain, no source is asked. -/
theorem consulted_eq_nil {history : List Exchange} (h : ∀ x ∈ history, x.call.IsPlain) :
    consulted history = [] := by
  refine List.filterMap_eq_nil_iff.mpr fun x hx => ?_
  have hplain := h x hx
  unfold Exchange.consulted?
  split
  · exact hplain.elim
  · rfl

namespace Process

variable {α β : Type} {past : List Exchange}

/-- Whenever the process comes to a call, the call is grounded in what was done before. -/
def Grounded (past : List Exchange) (p : Process α) : Prop :=
  ∀ t c next, Path p t (.call c next) → c.Grounded (past ++ t)

theorem grounded_done (a : α) : (Process.done a).Grounded past := by
  intro t c next h
  cases h.of_done.2

theorem grounded_of_only {p : Process α} (hp : p.Only fun c => ∀ past, c.Grounded past) :
    p.Grounded past :=
  fun _ _ _ h => (hp.path h).1 _

theorem grounded_of_plain {p : Process α} (hp : p.Only Call.IsPlain) : p.Grounded past :=
  fun _ _ _ h => (hp.path h).1.grounded _

theorem grounded_perform {c : Call} (hc : c.Grounded past) : (perform c).Grounded past := by
  intro t c' next h
  cases h with
  | refl => rwa [List.append_nil]
  | step hrest => cases hrest.of_done.2

/-- What follows is grounded in what was done to come there. -/
theorem Grounded.bind {p : Process α} {f : α → Process β} (hp : p.Grounded past)
    (hf : ∀ t a, Path p t (.done a) → (f a).Grounded (past ++ t)) : (p >>= f).Grounded past := by
  intro t c next h
  rcases path_bind h with ⟨p', hp', hcall⟩ | ⟨t₁, t₂, a, rfl, hp', hrest⟩
  · cases p' with
    | call c' next' =>
        rw [call_bind] at hcall
        cases hcall
        exact hp t c next' hp'
    | done a =>
        have hstart : Path (f a) [] (.call c next) := by
          rw [hcall]
          exact .refl _
        have hgrounded := hf t a hp' [] c next hstart
        rwa [List.append_nil] at hgrounded
  · rw [← List.append_assoc]
    exact hf t₁ a hp' t₂ c next hrest

end Process

namespace Attempt

variable {α β : Type} {past : List Exchange}

/-- Whenever the attempt comes to a call, the call is grounded in what was done before. -/
abbrev Grounded (past : List Exchange) (x : Attempt α) : Prop :=
  Process.Grounded past x.run

theorem grounded_bind {x : Attempt α} {f : α → Attempt β} (hx : Grounded past x)
    (hf : ∀ t a, Process.Path x.run t (.done (.ok a)) → Grounded (past ++ t) (f a)) :
    Grounded past (x >>= f) := by
  refine Process.Grounded.bind hx fun t r hr => ?_
  cases r with
  | ok a => exact hf t a hr
  | error e => exact Process.grounded_done _

/-- What is plain may come before. -/
theorem grounded_bind_plain {x : Attempt α} {f : α → Attempt β} (hx : Only Call.IsPlain x)
    (hf : ∀ t a, consulted t = [] → Grounded (past ++ t) (f a)) : Grounded past (x >>= f) :=
  grounded_bind (Process.grounded_of_plain hx) fun t a ht =>
    hf t a (consulted_eq_nil (Process.Only.calls hx ht))

theorem path_lift_ok {p : Process α} {t : List Exchange} {a : α}
    (h : Process.Path (ExceptT.lift p : Attempt α).run t (.done (.ok a))) :
    Process.Path p t (.done a) := by
  rw [ExceptT.run_lift, map_eq_pure_bind] at h
  obtain ⟨t₁, t₂, b, rfl, hp, hrest⟩ := Process.path_bind_done h
  obtain ⟨rfl, hdone⟩ := hrest.of_done
  cases hdone
  rwa [List.append_nil]

theorem grounded_pure (a : α) : Grounded past (pure a : Attempt α) :=
  Process.grounded_done _

theorem grounded_store {query : Store.Query} (h : (Call.store query).Grounded past) :
    Grounded past (store query) :=
  (Process.grounded_perform h).bind fun _ _ _ => Process.grounded_done _

theorem grounded_cache {query : Cache.Query} (h : (Call.cache query).Grounded past) :
    Grounded past (cache query) :=
  (Process.grounded_perform h).bind fun _ _ _ => Process.grounded_done _

theorem grounded_publish {event : Event} (h : (Call.publish event).Grounded past) :
    Grounded past (publish event) :=
  (Process.grounded_perform h).bind fun _ _ _ => Process.grounded_done _

theorem plain_record (observation : Observation) : Only Call.IsPlain (record observation) :=
  only_record trivial

/-- Signals that were read from the store may be cached. -/
theorem grounded_readBack {symbol name : String} {limit : Nat} {f : List Signal → Unit → Attempt β}
    (hf : ∀ t signals, consulted t = [] → Grounded (past ++ t) (f signals ())) :
    Grounded past (do
      let signals ← store (.recentSignals symbol limit)
      let done ← cache (.setSignals name signals)
      f signals done) := by
  refine grounded_bind (grounded_store trivial) fun t₁ signals hread => ?_
  obtain rfl := path_store_ok hread
  refine grounded_bind (grounded_cache ⟨symbol, limit, by simp⟩) fun t₂ _ hset => ?_
  obtain rfl := path_cache_ok hset
  rw [List.append_assoc]
  exact hf _ signals rfl

end Attempt

/-! ### Operations -/

namespace Pipeline

variable {config : Config} {past : List Exchange}

theorem plain_validate (symbol market : String) :
    Attempt.Only Call.IsPlain (validate symbol market) :=
  only_validate trivial

theorem plain_latestPrice (symbol : String) : Attempt.Only Call.IsPlain (latestPrice symbol) :=
  only_latestPrice trivial trivial fun _ => trivial

/-- A decision asks the primary source once and follows from its reply. -/
theorem follows_of_path_decide {request : DecisionRequest} {t : List Exchange} {d : Decision}
    (h : Process.Path (decide request) t (.done d)) :
    ∃ reply, consulted t = [(request, reply)] ∧ Decision.Follows d request reply := by
  have hrules : ∀ {u}, Process.Path (decideByRules request) u (.done d) →
      consulted u = [] ∧ ∃ now, d = Rules.decide request now := by
    intro u hu
    cases hu with
    | @step _ _ now _ _ hrest =>
        obtain ⟨rfl, hdone⟩ := hrest.of_done
        cases hdone
        exact ⟨rfl, now, rfl⟩
  cases h with
  | @step _ _ reply u _ hreply =>
      cases reply with
      | none =>
          obtain ⟨hnone, hnow⟩ := hrules hreply
          exact ⟨none, congrArg ((request, none) :: ·) hnone, hnow⟩
      | some replied =>
          obtain ⟨origin, result, seconds⟩ := replied
          cases hreply with
          | @step _ _ _ v _ htimed =>
              cases result with
              | ok decision =>
                  obtain ⟨rfl, hdone⟩ := htimed.of_done
                  cases hdone
                  exact ⟨_, rfl, rfl⟩
              | error e =>
                  cases htimed with
                  | @step _ _ _ w _ hcounted =>
                      obtain ⟨hnone, hnow⟩ := hrules hcounted
                      exact ⟨_, congrArg ((request, _) :: ·) hnone, hnow⟩

theorem grounded_onDecisionRequested (symbol market : String) (indicators : Snapshot)
    (hpast : consulted past = []) :
    Attempt.Grounded past (onDecisionRequested config symbol market indicators) := by
  refine Attempt.grounded_bind_plain (plain_validate _ _) fun t₁ _ h₁ => ?_
  split
  · refine Attempt.grounded_bind_plain (plain_latestPrice _) fun t₂ price h₂ => ?_
    cases price with
    | none => exact Process.grounded_done _
    | some price =>
        have hdecide : Attempt.Only (fun c => ∀ past, c.Grounded past)
            (ExceptT.lift (decide (request config price indicators))) :=
          Attempt.only_lift (only_decide (fun _ => trivial) (fun _ => trivial) fun _ _ => trivial)
        refine Attempt.grounded_bind (Process.grounded_of_only hdecide) fun t₃ d h₃ => ?_
        obtain ⟨reply, honce, hfollows⟩ := follows_of_path_decide (Attempt.path_lift_ok h₃)
        have hmade : (Signal.ofDecision d market (d.strength indicators.readings)).MadeIn
            (past ++ t₁ ++ t₂ ++ t₃) := by
          refine ⟨_, reply, d, market, indicators.readings, ?_, hfollows, rfl⟩
          simp only [consulted_append, hpast, h₁, h₂, honce, List.nil_append]
        refine Attempt.grounded_bind (Attempt.grounded_store hmade) fun t₄ _ h₄ => ?_
        obtain rfl := Attempt.path_store_ok h₄
        refine Attempt.grounded_readBack fun t₅ recent h₅ => ?_
        refine Attempt.grounded_bind_plain (Attempt.plain_record _) fun t₆ _ h₆ => ?_
        refine Attempt.grounded_bind (Attempt.grounded_publish ?_) fun _ _ _ =>
          Attempt.grounded_pure _
        -- No source is asked between the decision and the announcement of its signal.
        exact ((hmade.append rfl).append h₅).append h₆
  · exact Process.grounded_done _

theorem grounded_handle (event : Event) : Attempt.Grounded [] (handle config event) := by
  refine Attempt.grounded_bind_plain (Attempt.plain_record _) fun t _ ht => ?_
  rw [List.nil_append]
  unfold stageOf
  split
  · refine Process.grounded_of_plain (Attempt.only_bind (plain_validate _ _) fun _ => ?_)
    refine Attempt.only_bind (Attempt.only_cache trivial) fun _ => ?_
    exact Attempt.only_bind (Attempt.only_publish trivial) fun _ => Attempt.only_pure _
  · refine Process.grounded_of_plain (Attempt.only_bind (plain_validate _ _) fun _ => ?_)
    refine Attempt.only_bind (Attempt.only_store trivial) fun bars => ?_
    cases config.lookbacks.compute _ bars with
    | error e =>
        cases e with
        | insufficientData _ _ =>
            exact Attempt.only_bind (Attempt.plain_record _) fun _ => Attempt.only_pure _
        | nonFinitePrice _ _ => exact Attempt.only_pure _
    | ok snapshot =>
        refine Attempt.only_bind (Attempt.only_store trivial) fun _ => ?_
        refine Attempt.only_bind (Attempt.only_cache trivial) fun _ => ?_
        exact Attempt.only_bind (Attempt.only_publish trivial) fun _ => Attempt.only_pure _
  · exact grounded_onDecisionRequested _ _ _ ht
  · exact Process.grounded_of_plain (Attempt.only_bind (plain_validate _ _) fun _ =>
      Attempt.only_pure _)

theorem grounded_deliver (event : Event) : (deliver config event).Grounded [] := by
  refine Process.Grounded.bind (grounded_handle event) fun t result _ => ?_
  refine Process.grounded_of_plain ?_
  cases result with
  | ok outcome => trivial
  | error e =>
      dsimp only
      split
      · exact (Process.only_perform trivial).bind fun _ => trivial
      · exact (Process.only_perform trivial).bind fun _ => trivial

theorem grounded_recentSignals (symbol : String) :
    Attempt.Grounded [] (recentSignals config symbol) := by
  refine Attempt.grounded_bind_plain (Attempt.only_cachedSignals trivial) fun t cached _ => ?_
  cases cached with
  | some signals => exact Attempt.grounded_pure _
  | none => exact Attempt.grounded_readBack fun _ _ _ => Attempt.grounded_pure _

theorem plain_requestIndicators (instruments : List Instrument) :
    Attempt.Only Call.IsPlain (requestIndicators instruments) := by
  induction instruments with
  | nil => exact Attempt.only_pure _
  | cons instrument rest ih => exact Attempt.only_bind (Attempt.only_publish trivial) fun _ => ih

/-- Every call of an operation is grounded in what the operation did before. -/
theorem grounded_operation (operation : Operation) :
    (operation.process config).Grounded [] := by
  have hdone : ∀ {t : List Exchange}, (Process.done ()).Grounded t := Process.grounded_done _
  cases operation with
  | record bar =>
      refine Process.grounded_of_plain (Process.Only.bind ?_ fun _ => trivial)
      refine Attempt.only_bind (plain_validate _ _) fun _ => ?_
      exact Attempt.only_bind (Attempt.only_store trivial) fun _ => Attempt.only_publish trivial
  | handle event => exact (grounded_handle event).bind fun _ _ _ => hdone
  | deliver event => exact (grounded_deliver event).bind fun _ _ _ => hdone
  | refresh =>
      refine Process.grounded_of_plain (Process.Only.bind ?_ fun _ => trivial)
      refine Attempt.only_bind (Attempt.only_store trivial) fun instruments => ?_
      exact Attempt.only_bind (plain_requestIndicators _) fun _ => Attempt.only_pure _
  | latestPrice symbol =>
      exact Process.grounded_of_plain (Process.Only.bind (plain_latestPrice _) fun _ => trivial)
  | recentSignals symbol => exact (grounded_recentSignals symbol).bind fun _ _ _ => hdone
  | prune now =>
      refine Process.grounded_of_plain (Process.Only.bind ?_ fun _ => trivial)
      exact only_pruneHistory fun _ => trivial

/-! ### Runs -/

namespace Running

variable {w : World} {r : Running}

/-- Every call that an operation under way made is grounded in what it did before. -/
theorem Reachable.grounded (h : Reachable config w r) {thread : Thread}
    (hthread : thread ∈ r.threads) {before after : List Exchange} {x : Exchange}
    (hpast : thread.past = before ++ x :: after) : x.call.Grounded before := by
  obtain ⟨operation, hpath⟩ := h.sound.paths thread hthread
  rw [hpast] at hpath
  obtain ⟨next, hbefore, -⟩ := hpath.split
  exact grounded_operation operation before _ next hbefore

/-- What was made is in the past of an operation. -/
theorem Reachable.exists_past (h : Reachable config w r) {x : Exchange} (hx : x ∈ r.history) :
    ∃ thread ∈ r.threads, ∃ before after, thread.past = before ++ x :: after := by
  obtain ⟨thread, hthread, hmem⟩ := List.mem_flatMap.mp (h.sound.shuffle.mem_iff.mp hx)
  exact ⟨thread, hthread, List.append_of_mem hmem⟩

theorem Reachable.mem_history (h : Reachable config w r) {thread : Thread}
    (hthread : thread ∈ r.threads) {x : Exchange} (hx : x ∈ thread.past) : x ∈ r.history :=
  h.sound.shuffle.mem_iff.mpr (List.mem_flatMap.mpr ⟨thread, hthread, hx⟩)

/-- The recent signals that the store of a world returns are among its signals. -/
theorem mem_of_answer_recentSignals {v : World} {symbol : String} {limit : Nat}
    {signals : List Signal}
    (h : (v.answer (.store (.recentSignals symbol limit))).1 = .ok signals) :
    ∀ s ∈ signals, s ∈ v.store.signals := by
  intro s hs
  simp only [World.answer, World.askStore] at h
  split at h
  · cases h
  · cases h
    have hsorted := List.mem_of_mem_take hs
    rw [List.mem_mergeSort] at hsorted
    exact List.mem_of_mem_filter hsorted

/-- The signals of the store were there before the run or were stored in it. -/
theorem Reachable.mem_signals (h : Reachable config w r) {s : Signal}
    (hs : s ∈ r.world.store.signals) :
    s ∈ w.store.signals ∨ .appendSignal s ∈ stored r.history := by
  rw [h.sound.store, Store.signals_carryOut, List.mem_append] at hs
  refine hs.imp_right fun hadded => ?_
  obtain ⟨query, hquery, hsome⟩ := List.mem_filterMap.mp hadded
  cases query <;> cases hsome
  exact hquery

/-- What the store returned of a run was there before the run or was stored in it. -/
theorem Reachable.mem_recentSignals (h : Reachable config w r) {symbol : String} {limit : Nat}
    {signals : List Signal}
    (hread : ⟨.store (.recentSignals symbol limit), .ok signals⟩ ∈ r.history) :
    ∀ s ∈ signals, s ∈ w.store.signals ∨ .appendSignal s ∈ stored r.history := by
  intro s hs
  induction h with
  | start => cases hread
  | @next r r' hr hstep ih =>
      cases hstep with
      | begin | disturb => exact ih hread
      | proceed v before after past history call next =>
          rw [stored_append, List.mem_append]
          rcases List.mem_append.mp hread with hold | hnew
          · exact (ih hold).imp_right .inl
          · -- What is read now is in the store of this moment, which the run so far made.
            obtain ⟨rfl, hanswer⟩ := Exchange.mk.inj (List.mem_singleton.mp hnew)
            have hstored := mem_of_answer_recentSignals (eq_of_heq hanswer).symm s hs
            exact (hr.mem_signals hstored).imp_right .inl

end Running

/-- **Signals stay between zero and one.** In a run, whatever the primary source decides and
whatever the readings are, each signal that is given to the store or published has a strength and a
confidence from zero to one. It is made of a decision that follows from the one reply of the primary
source, and where the confidence of the decision is from zero to one already, the signal has just
this confidence. Over a store whose signals were all within these bounds, so is each signal that is
cached, and each that the store comes to hold. -/
theorem signals_stay_bounded {w : World} {r : Running} (h : Running.Reachable config w r) :
    (∀ thread ∈ r.threads, ∀ before x after signal, thread.past = before ++ x :: after →
      x.call.given? = some signal → signal.Bounded ∧ ∃ request reply decision,
        consulted before = [(request, reply)] ∧ Decision.Follows decision request reply ∧
        (InUnit decision.confidence → signal.confidence = decision.confidence)) ∧
    ((∀ s ∈ w.store.signals, s.Bounded) →
      (∀ x ∈ r.history, ∀ s ∈ x.call.signals, s.Bounded) ∧
      ∀ s ∈ r.world.store.signals, s.Bounded) := by
  have hgiven : ∀ thread ∈ r.threads, ∀ before x after signal,
      thread.past = before ++ x :: after → x.call.given? = some signal → signal.MadeIn before :=
    fun thread hthread before x after signal hpast hgiven =>
      (h.grounded hthread hpast).madeIn hgiven
  have hstored : (∀ s ∈ w.store.signals, s.Bounded) → ∀ s,
      s ∈ w.store.signals ∨ .appendSignal s ∈ stored r.history → s.Bounded := by
    rintro hw s (hold | hnew)
    · exact hw s hold
    · obtain ⟨x, hx, hadded⟩ := exists_given_of_mem_stored hnew
      obtain ⟨thread, hthread, before, after, hpast⟩ := h.exists_past hx
      exact (hgiven thread hthread before x after s hpast hadded).bounded
  refine ⟨fun thread hthread before x after signal hpast hx => ?_, fun hw =>
    ⟨fun x hx s hs => ?_, fun s hs => hstored hw s (h.mem_signals hs)⟩⟩
  · have hmade := hgiven thread hthread before x after signal hpast hx
    exact ⟨hmade.bounded, hmade.confidence⟩
  · obtain ⟨thread, hthread, before, after, hpast⟩ := h.exists_past hx
    rcases (h.grounded hthread hpast).signals hs with hmade | ⟨symbol, limit, signals, hread, hmem⟩
    · exact hmade.bounded
    · have hpast' : ⟨.store (.recentSignals symbol limit), .ok signals⟩ ∈ thread.past := by
        rw [hpast]
        exact List.mem_append_left _ hread
      exact hstored hw s (h.mem_recentSignals (h.mem_history hthread hpast') s hmem)

/-- A remote source whose first decision has no number for its confidence, whose second one has two,
and whose later ones have three quarters. -/
def boastfulSource : DecisionSource where
  origin := .remote
  answer past now request :=
    ⟨.ok ⟨request.symbol, .buy, [0 / 0, 2].getD past.length 0.75, [], .remote, now⟩, 0.1⟩

/-- A world with one priced instrument and the boastful source. -/
def boastful : World where
  store := (Store.addInstrument {} ⟨"AAPL", "NASDAQ", "", true⟩).appendPrice
    ⟨"AAPL", "NASDAQ", 10, 11, 9, 10, 1000, 0, .epoch⟩
  primary := some boastfulSource
  clock := { readings := fun _ => .epoch }

/-- A decision is asked for, with wide bands and a mean range that is no number. -/
def wideAsk : Event :=
  .decisionRequested "AAPL" "NASDAQ"
    ⟨"AAPL", ⟨50, ⟨0, 0, 0⟩, 10, 10, 10, 10, ⟨30, 20, 10⟩, ⟨50, 50⟩, -50, 0 / 0, 0⟩, 50, .epoch⟩

/-- Three decisions of the boastful source: no number becomes zero, two becomes one, and three
quarters stay, of which the bands make a greater strength. -/
theorem signals_stay_bounded_boastful : ∃ r, Running.Reachable {} boastful r ∧
    r.world.store.signals.map Signal.confidence = [0, 1, 0.75] ∧
    r.world.store.signals.map Signal.strength = [0, 1, 0.75 + bandWidthBonus] ∧
    (∀ x ∈ r.history, ∀ s ∈ x.call.signals, s.Bounded) ∧
    ∀ s ∈ r.world.store.signals, s.Bounded := by
  have hstart : Running.Reachable {} boastful (.start boastful) := .start
  have hrun := ((hstart.perform (.deliver wideAsk)).perform (.deliver wideAsk)).perform
    (.deliver wideAsk)
  obtain ⟨-, hbounded⟩ := signals_stay_bounded hrun
  refine ⟨_, hrun, by decide +kernel, by decide +kernel, hbounded fun s hs => ?_⟩
  cases hs

end Pipeline

end MarketSignals
