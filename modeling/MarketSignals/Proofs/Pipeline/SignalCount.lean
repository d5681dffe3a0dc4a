import MarketSignals.Proofs.Metrics.Counters
import MarketSignals.Proofs.Pipeline.DecisionStage

/-!
# Counted signals

A decision's signal is stored first. The recent signals are read back and cached after it, and only
then is the signal counted. So the counter of signals is not that of the stored ones: where the
reading or the caching fails, the signal stays stored and is never counted, and when its event is
delivered again there is a second signal.

From the call that stores a signal to the one that counts it, the operation owes the signal to the
counter. What an operation counts is therefore stated for any signals that it owes as it begins; the
calls that neither store, read, cache nor count signals keep what is owed.

## Main results

* `Process.Tallies`: what the paths of a process count, whatever it owes; `tallies_operation` shows
  it of every operation, which owes nothing as it begins.
* `Running.tally_threads`: what operations count together.
* `signals_counted_when_cached`: the counter never exceeds the stored signals, and falls short of
  them by those that could not be cached.
-/

namespace MarketSignals

/-! ### What a history stores and counts -/

/-- The signals that the store took on, the first first. -/
def storedSignals (history : List Exchange) : List Signal :=
  (stored history).filterMap Store.Query.signal?

@[simp] theorem storedSignals_append (t u : List Exchange) :
    storedSignals (t ++ u) = storedSignals t ++ storedSignals u := by
  simp [storedSignals]

/-- Whether the recent signals could not be read from the store or not be cached. -/
def Exchange.lapses : Exchange → Bool
  | ⟨.store (.recentSignals _ _), .error _⟩ => true
  | ⟨.cache (.setSignals _ _), .error _⟩ => true
  | _ => false

/-- Whether the recent signals could once not be read from the store or not be cached. -/
def lapsed (history : List Exchange) : Bool :=
  history.any Exchange.lapses

@[simp] theorem lapsed_append (t u : List Exchange) : lapsed (t ++ u) = (lapsed t || lapsed u) :=
  List.any_append

/-- A call that neither stores nor counts a signal, nor reads or caches the recent ones. -/
def Call.SparesSignals : Call → Prop
  | .store (.appendSignal _) | .store (.recentSignals _ _) | .cache (.setSignals _ _)
  | .record (.signals _ _) => False
  | _ => True

section Spares

variable {history : List Exchange} (h : ∀ x ∈ history, x.call.SparesSignals)
include h

theorem storedSignals_of_spares : storedSignals history = [] := by
  refine List.filterMap_eq_nil_iff.mpr fun query hquery => ?_
  obtain ⟨x, hx, hstored⟩ := List.mem_filterMap.mp hquery
  have hspares := h x hx
  unfold Exchange.stored? at hstored
  split at hstored
  · cases hstored
    cases query with
    | appendSignal signal => exact hspares.elim
    | _ => rfl
  · cases hstored

theorem lapsed_of_spares : lapsed history = false := by
  refine List.any_eq_false.mpr fun x hx => ?_
  have hspares := h x hx
  unfold Exchange.lapses
  split
  · exact hspares.elim
  · exact hspares.elim
  · simp

theorem added_of_spares (origin : String) : added history (.signals origin) = 0 := by
  refine added_eq_zero fun x hx => ?_
  have hspares := h x hx
  obtain ⟨call, answer⟩ := x
  cases call with
  | record observation =>
      cases observation with
      | signals name amount => exact hspares.elim
      | _ => rfl
  | _ => trivial

end Spares

/-- Each origin has a label of its own. -/
theorem Origin.name_inj {origin other : Origin} : origin.name = other.name ↔ origin = other := by
  cases origin <;> cases other <;> simp [Origin.name]

/-! ### What paths count -/

namespace Process

variable {α β : Type} {owed : List Signal}

/-- What the paths of a process count where the signals `owed` are stored already and not counted:
never more than is stored, and, once the process is done, all of it, or nothing if the recent
signals could not be read or cached. -/
def Tallies (owed : List Signal) (p : Process α) : Prop :=
  ∀ t q, Path p t q → ∀ origin : Origin,
    added t (.signals origin.name) ≤ (owed ++ storedSignals t).countP (·.source = origin) ∧
      ∀ a, q = .done a → added t (.signals origin.name) =
        if lapsed t then 0 else (owed ++ storedSignals t).countP (·.source = origin)

/-- Where no signal is owed, a process may leave all signals alone. -/
theorem tallies_of_spares {p : Process α} (hp : p.Only Call.SparesSignals) : p.Tallies [] := by
  intro t q h origin
  rw [added_of_spares (hp.calls h), storedSignals_of_spares (hp.calls h),
    lapsed_of_spares (hp.calls h)]
  exact ⟨Nat.zero_le _, fun _ _ => rfl⟩

/-- A call that counts nothing leads on to what owes the signals it stored too; or it lapses, and
the process is done. -/
theorem tallies_call {c : Call} {next : c.Answer → Process α}
    (h : ∀ answer, (∀ origin, added [⟨c, answer⟩] (.signals origin) = 0) ∧
      (lapsed [⟨c, answer⟩] = false ∧
          (next answer).Tallies (owed ++ storedSignals [⟨c, answer⟩]) ∨
        lapsed [⟨c, answer⟩] = true ∧ ∃ a, next answer = .done a)) :
    (Process.call c next).Tallies owed := by
  intro t q hpath origin
  cases hpath with
  | refl => exact ⟨Nat.zero_le _, fun _ hdone => nomatch hdone⟩
  | @step _ _ answer u _ hrest =>
      obtain ⟨hadded, ⟨hheld, hnext⟩ | ⟨hlapsed, a, hdone⟩⟩ := h answer
      · rw [← List.singleton_append, added_append, storedSignals_append, lapsed_append, hadded,
          hheld, Nat.zero_add, Bool.false_or, ← List.append_assoc]
        exact hnext u q hrest origin
      · rw [hdone] at hrest
        obtain ⟨rfl, -⟩ := hrest.of_done
        rw [hadded, hlapsed]
        exact ⟨Nat.zero_le _, fun _ _ => rfl⟩

/-- What leaves the signals alone may follow. -/
theorem Tallies.then_spares {p : Process α} {f : α → Process β} (hp : p.Tallies owed)
    (hf : ∀ a, (f a).Only Call.SparesSignals) : (p >>= f).Tallies owed := by
  intro t q h origin
  rcases path_bind h with ⟨p', hp', hq⟩ | ⟨t₁, t₂, a, rfl, hp', hrest⟩
  · refine ⟨(hp t p' hp' origin).1, fun b hb => ?_⟩
    cases p' with
    | call c next =>
        rw [hq] at hb
        cases hb
    | done a => exact (hp t _ hp' origin).2 a rfl
  · have hcalls := (hf a).calls hrest
    obtain ⟨hle, hdone⟩ := hp t₁ _ hp' origin
    rw [added_append, storedSignals_append, lapsed_append, added_of_spares hcalls,
      storedSignals_of_spares hcalls, lapsed_of_spares hcalls, Nat.add_zero, List.append_nil,
      Bool.or_false]
    exact ⟨hle, fun _ _ => hdone a rfl⟩

end Process

namespace Attempt

variable {α β : Type} {owed : List Signal}

/-- What the paths of an attempt count. -/
abbrev Tallies (owed : List Signal) (x : Attempt α) : Prop :=
  Process.Tallies owed x.run

/-- Where no signal is owed, what leaves the signals alone may come before. -/
theorem tallies_bind {x : Attempt α} {f : α → Attempt β} (hx : Only Call.SparesSignals x)
    (hf : ∀ a, Tallies [] (f a)) : Tallies [] (x >>= f) := by
  intro t q h origin
  rcases path_bind h with ⟨p, hp, -⟩ | ⟨t₁, t₂, a, rfl, hp, hrest⟩
  · rw [added_of_spares (hx.calls hp), storedSignals_of_spares (hx.calls hp),
      lapsed_of_spares (hx.calls hp)]
    exact ⟨Nat.zero_le _, fun _ _ => rfl⟩
  · rw [added_append, storedSignals_append, lapsed_append, added_of_spares (hx.calls hp),
      storedSignals_of_spares (hx.calls hp), lapsed_of_spares (hx.calls hp), Nat.zero_add,
      List.nil_append, Bool.false_or]
    exact hf a t₂ q hrest origin

/-- A signal that is stored is owed from then on. -/
theorem tallies_appendSignal {signal : Signal} {f : Unit → Attempt β}
    (hf : ∀ a, Tallies [signal] (f a)) : Tallies [] (store (.appendSignal signal) >>= f) := by
  refine Process.tallies_call fun answer => ⟨fun _ => rfl, ?_⟩
  cases answer with
  | error e => exact .inl ⟨rfl, Process.tallies_of_spares trivial⟩
  | ok a => exact .inl ⟨rfl, hf a⟩

/-- Where the recent signals cannot be read, what is owed is never counted. -/
theorem tallies_recentSignals_bind {symbol : String} {limit : Nat} {f : List Signal → Attempt β}
    (hf : ∀ signals, Tallies owed (f signals)) :
    Tallies owed (store (.recentSignals symbol limit) >>= f) := by
  refine Process.tallies_call fun answer => ⟨fun _ => rfl, ?_⟩
  cases answer with
  | error e => exact .inr ⟨rfl, _, rfl⟩
  | ok signals => exact .inl ⟨rfl, (List.append_nil owed).symm ▸ hf signals⟩

/-- Where the recent signals cannot be cached, what is owed is never counted. -/
theorem tallies_setSignals_bind {symbol : String} {signals : List Signal} {f : Unit → Attempt β}
    (hf : ∀ a, Tallies owed (f a)) : Tallies owed (cache (.setSignals symbol signals) >>= f) := by
  refine Process.tallies_call fun answer => ⟨fun _ => rfl, ?_⟩
  cases answer with
  | error e => exact .inr ⟨rfl, _, rfl⟩
  | ok a => exact .inl ⟨rfl, (List.append_nil owed).symm ▸ hf a⟩

/-- The signal that is owed is counted; what follows leaves the signals alone. -/
theorem tallies_recordSignal {signal : Signal} {f : Unit → Attempt β}
    (hf : ∀ a, Only Call.SparesSignals (f a)) :
    Tallies [signal] (record (.signals signal.source.name 1) >>= f) := by
  intro t q h origin
  cases h with
  | refl => exact ⟨Nat.zero_le _, fun _ hdone => nomatch hdone⟩
  | @step _ _ answer u _ hrest =>
      have hcalls := (hf ()).calls hrest
      rw [← List.singleton_append, added_append, storedSignals_append, lapsed_append, added_record,
        added_of_spares hcalls, storedSignals_of_spares hcalls, lapsed_of_spares hcalls]
      have hadds : (Observation.signals signal.source.name 1).adds (.signals origin.name) =
          [signal].countP (·.source = origin) := by
        simp [Observation.adds, Observation.entry?, Origin.name_inj, List.countP_cons]
      rw [hadds]
      exact ⟨Nat.le_refl _, fun _ _ => rfl⟩

end Attempt

/-! ### Operations -/

namespace Pipeline

variable {config : Config}

theorem spares_validate (symbol market : String) :
    Attempt.Only Call.SparesSignals (validate symbol market) :=
  only_validate trivial

theorem spares_latestPrice (symbol : String) :
    Attempt.Only Call.SparesSignals (latestPrice symbol) :=
  only_latestPrice trivial trivial fun _ => trivial

/-- A decision is counted by how it was made, not as a signal. -/
theorem spares_decide (request : DecisionRequest) :
    (decide request).Only Call.SparesSignals :=
  only_decide_told trivial trivial (fun _ => trivial) trivial

theorem tallies_onDecisionRequested (symbol market : String) (indicators : Snapshot) :
    Attempt.Tallies [] (onDecisionRequested config symbol market indicators) := by
  refine Attempt.tallies_bind (spares_validate _ _) fun _ => ?_
  split
  · refine Attempt.tallies_bind (spares_latestPrice _) fun price => ?_
    cases price with
    | none => exact Process.tallies_of_spares trivial
    | some price =>
        refine Attempt.tallies_bind (Attempt.only_lift (spares_decide _)) fun decision => ?_
        refine Attempt.tallies_appendSignal fun _ => ?_
        refine Attempt.tallies_recentSignals_bind fun recent => ?_
        refine Attempt.tallies_setSignals_bind fun _ => ?_
        refine Attempt.tallies_recordSignal fun _ => ?_
        exact Attempt.only_bind (Attempt.only_publish trivial) fun _ => Attempt.only_pure _
  · exact Process.tallies_of_spares trivial

theorem tallies_handle (event : Event) : Attempt.Tallies [] (handle config event) := by
  refine Attempt.tallies_bind (Attempt.only_record trivial) fun _ => ?_
  unfold stageOf
  split
  · exact Process.tallies_of_spares (only_onPriceIngested trivial trivial trivial)
  · exact Process.tallies_of_spares (only_onIndicatorRequested trivial trivial trivial
      (fun _ => trivial) (fun _ => trivial) fun _ => trivial)
  · exact tallies_onDecisionRequested _ _ _
  · exact Process.tallies_of_spares (only_onSignalGenerated trivial)

theorem tallies_deliver (event : Event) : (deliver config event).Tallies [] := by
  refine Process.Tallies.then_spares (tallies_handle event) fun result => ?_
  cases result with
  | ok outcome => trivial
  | error e =>
      dsimp only
      split
      · exact (Process.only_perform trivial).bind fun _ => trivial
      · exact (Process.only_perform trivial).bind fun _ => trivial

/-- Signals that are looked up may be cached, where no signal is owed. -/
theorem tallies_recentSignals (symbol : String) :
    Attempt.Tallies [] (recentSignals config symbol) := by
  refine Attempt.tallies_bind (Attempt.only_cachedSignals trivial) fun cached => ?_
  cases cached with
  | some signals => exact Process.tallies_of_spares trivial
  | none =>
      refine Attempt.tallies_recentSignals_bind fun signals => ?_
      exact Attempt.tallies_setSignals_bind fun _ => Process.tallies_of_spares trivial

/-- Every operation counts the signal it stores, unless it then could not read the recent signals
back or not cache them. -/
theorem tallies_operation (operation : Operation) : (operation.process config).Tallies [] := by
  cases operation with
  | record bar =>
      exact Process.tallies_of_spares
        (Process.Only.bind (only_recordPrice trivial trivial trivial) fun _ => trivial)
  | handle event => exact (tallies_handle event).then_spares fun _ => trivial
  | deliver event => exact (tallies_deliver event).then_spares fun _ => trivial
  | refresh =>
      exact Process.tallies_of_spares
        (Process.Only.bind (only_refreshActive trivial fun _ => trivial) fun _ => trivial)
  | latestPrice symbol =>
      exact Process.tallies_of_spares (Process.Only.bind (spares_latestPrice _) fun _ => trivial)
  | recentSignals symbol => exact (tallies_recentSignals symbol).then_spares fun _ => trivial
  | prune now =>
      exact Process.tallies_of_spares
        (Process.Only.bind (only_pruneHistory fun _ => trivial) fun _ => trivial)

/-! ### Runs -/

namespace Running

/-- The signals of the operations that could not read or cache the recent ones. -/
def uncounted (threads : List Thread) : List Signal :=
  (threads.filter (lapsed ·.past)).flatMap (storedSignals ·.past)

theorem uncounted_cons (thread : Thread) (rest : List Thread) :
    uncounted (thread :: rest) =
      (if lapsed thread.past then storedSignals thread.past else []) ++ uncounted rest := by
  unfold uncounted
  cases h : lapsed thread.past <;> simp [h]

/-- What operations count together, while they are under way and when they are done. -/
theorem tally_threads {threads : List Thread}
    (hpaths : ∀ thread ∈ threads, ∃ operation : Operation,
      Process.Path (operation.process config) thread.past thread.rest) (origin : Origin) :
    added (threads.flatMap Thread.past) (.signals origin.name) ≤
        (storedSignals (threads.flatMap Thread.past)).countP (·.source = origin) ∧
      ((∀ thread ∈ threads, thread.rest = .done ()) →
        added (threads.flatMap Thread.past) (.signals origin.name) +
            (uncounted threads).countP (·.source = origin) =
          (storedSignals (threads.flatMap Thread.past)).countP (·.source = origin)) := by
  induction threads with
  | nil => exact ⟨Nat.zero_le _, fun _ => rfl⟩
  | cons thread rest ih =>
      obtain ⟨⟨operation, hpath⟩, hrest⟩ := List.forall_mem_cons.mp hpaths
      obtain ⟨hle, hdone⟩ := tallies_operation operation _ _ hpath origin
      obtain ⟨ihle, ihdone⟩ := ih hrest
      rw [List.nil_append] at hle hdone
      rw [List.flatMap_cons, added_append, storedSignals_append, List.countP_append,
        uncounted_cons, List.countP_append]
      refine ⟨Nat.add_le_add hle ihle, fun hall => ?_⟩
      obtain ⟨hthread, hothers⟩ := List.forall_mem_cons.mp hall
      have hcounted := hdone () hthread
      have hlater := ihdone hothers
      cases hlapsed : lapsed thread.past <;>
        simp only [hlapsed, if_true, Bool.false_eq_true, if_false, List.countP_nil]
          at hcounted ⊢ <;>
        omega

end Running

/-- **Signals are counted when they are cached.** In a run, whatever fails and however the
operations mix, the counter of an origin never exceeds the number of its signals that were stored.
When all operations are done, it falls short of it by the signals of those operations that could not
read the recent signals back from the store or not cache them. -/
theorem signals_counted_when_cached {w : World} {r : Running} (hmetrics : w.metrics = some {})
    (h : Running.Reachable config w r) :
    r.world.store.signals = w.store.signals ++ storedSignals r.history ∧
      ∃ m, r.world.metrics = some m ∧ ∀ origin : Origin, ∃ counted,
        m.signals.count origin.name = .ofNat counted ∧
        counted ≤ (storedSignals r.history).countP (·.source = origin) ∧
        ((∀ thread ∈ r.threads, thread.rest = .done ()) →
          counted + (Running.uncounted r.threads).countP (·.source = origin) =
            (storedSignals r.history).countP (·.source = origin)) := by
  have hmade := h.sound
  constructor
  · rw [hmade.store, Store.signals_carryOut]
    rfl
  · refine ⟨_, by rw [Running.metrics_of_reachable h, hmetrics, Option.map_some], fun origin => ?_⟩
    have hperm : (storedSignals r.history).Perm (storedSignals (r.threads.flatMap Thread.past)) :=
      (hmade.shuffle.filterMap _).filterMap _
    refine ⟨added r.history (.signals origin.name), ?_, ?_⟩
    · calc _ = (({} : Metrics).recordAll (observed r.history)).count (.signals origin.name) := rfl
        _ = .ofNat (added r.history (.signals origin.name)) := by
          rw [Metrics.count_recordAll, Metrics.count_fresh, UInt64.zero_add]
          rfl
    · rw [added_perm hmade.shuffle, hperm.countP_eq]
      exact Running.tally_threads hmade.paths origin

/-- A world with metrics and one priced instrument, whose cache fails once as signals are cached. -/
def unrefreshed : World where
  store := (Store.addInstrument {} ⟨"AAPL", "NASDAQ", "", true⟩).appendPrice
    ⟨"AAPL", "NASDAQ", 10, 11, 9, 10, 1000, 0, .epoch⟩
  metrics := some {}
  faults := Faults.setCache {} .setSignals [some (.server "down")]
  clock := { readings := fun _ => .epoch }

/-- The queue delivers the event that asks for the neutral decision. -/
def neutralDelivery : Operation :=
  .deliver (.decisionRequested neutralAsk.symbol neutralAsk.market neutralAsk.indicators)

/-- Delivered twice, the event leads to two signals of the rules, and one of them is counted. -/
theorem signals_counted_when_cached_again : ∃ r,
    unrefreshed.metrics = some {} ∧ Running.Reachable {} unrefreshed r ∧
      (∀ thread ∈ r.threads, thread.rest = .done ()) ∧
      (storedSignals r.history).map Signal.source = [.rule, .rule] ∧
      ∃ m, r.world.metrics = some m ∧ m.signals.count "RULE" = 1 := by
  have hstart : Running.Reachable {} unrefreshed (.start unrefreshed) := .start
  have hrun := (hstart.perform neutralDelivery).perform neutralDelivery
  obtain ⟨-, m, hm, hcount⟩ := signals_counted_when_cached rfl hrun
  obtain ⟨counted, hshown, -, hbalance⟩ := hcount .rule
  have hdone := hbalance (by simp [Running.start])
  have hone : counted = 1 := Nat.add_right_cancel (hdone.trans (by decide +kernel))
  exact ⟨_, rfl, hrun, by simp [Running.start], by decide +kernel, m, hm, hshown.trans (hone ▸ rfl)⟩

/-- After the first delivery one signal is stored and none is counted. -/
theorem stored_signal_uncounted : ∃ r,
    unrefreshed.metrics = some {} ∧ Running.Reachable {} unrefreshed r ∧
      (∀ thread ∈ r.threads, thread.rest = .done ()) ∧
      (storedSignals r.history).countP (·.source = .rule) = 1 ∧
      r.world.metrics.map (·.signals.count "RULE") = some 0 := by
  have hstart : Running.Reachable {} unrefreshed (.start unrefreshed) := .start
  exact ⟨_, rfl, hstart.perform neutralDelivery, by simp [Running.start], by decide +kernel,
    by decide +kernel⟩

end Pipeline

end MarketSignals
