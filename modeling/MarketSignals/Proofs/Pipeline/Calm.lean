import MarketSignals.Proofs.Pipeline.Calls

/-!
# Stages without failures

What the parts of a cycle come to in a world where no failure lies ahead: each has one result and
leaves one world, and both are written out here. A stage then looks at the instrument, at the
prices, and adds what it found.

## Main results

* `World.after_bind`: running one attempt after another is running both in turn.
* `World.after_store`, `World.after_cache`, `World.after_publish`: a calm world answers every call.
* `Pipeline.after_validate`, `Pipeline.after_latestPrice`, `Pipeline.after_decide`, and for each
  stage `Pipeline.after_onPriceIngested` and its siblings: what the parts of a cycle come to.
-/

namespace MarketSignals

namespace World

variable {α β : Type} {w : World}

/-- No failure lies ahead. -/
abbrev Calm (w : World) : Prop :=
  w.faults = Faults.none

/-! ### Single calls -/

theorem askStore_of_calm (h : w.Calm) (query : Store.Query) :
    w.askStore query =
      (.ok (w.store.ask query).1, { w with store := (w.store.ask query).2 }) := by
  have hfaults : Faults.none.setStore query.operation [] = Faults.none := by
    simp [Faults.setStore, Faults.none]
  obtain ⟨store, cache, log, primary, asked, metrics, faults, clock⟩ := w
  obtain rfl : faults = Faults.none := h
  simp only [askStore, show Faults.none.store query.operation = [] from rfl, List.tail_nil,
    hfaults]
  rfl

theorem askCache_of_calm (h : w.Calm) (query : Cache.Query) :
    w.askCache query =
      (.ok (w.cache.ask w.clock.instant query).1,
        { w with cache := (w.cache.ask w.clock.instant query).2 }) := by
  have hfaults : Faults.none.setCache query.operation [] = Faults.none := by
    simp [Faults.setCache, Faults.none]
  obtain ⟨store, cache, log, primary, asked, metrics, faults, clock⟩ := w
  obtain rfl : faults = Faults.none := h
  simp only [askCache, show Faults.none.cache query.operation = [] from rfl, List.tail_nil,
    hfaults]
  rfl

theorem publish_of_calm (h : w.Calm) (event : Event) :
    w.publish event = (.ok (), { w with log := w.log ++ [event] }) := by
  obtain ⟨store, cache, log, primary, asked, metrics, faults, clock⟩ := w
  obtain rfl : faults = Faults.none := h
  rfl

/-! ### Attempts -/

/-- Running one attempt after another is running both in turn; a failure of the first ends both. -/
theorem after_bind (w : World) (x : Attempt α) (f : α → Attempt β) :
    w.after (x >>= f).run = match w.after x.run with
      | (.ok a, w') => w'.after (f a).run
      | (.error e, w') => (.error e, w') := by
  rw [after, ExceptT.run_bind, Process.run_bind]
  rw [after]
  generalize Process.run answer x.run w = done
  obtain ⟨result, w'⟩ := done
  cases result with
  | ok a => rfl
  | error e => rfl

/-- After a success the second attempt is run in the world that the first one left. -/
theorem after_bind_ok {x : Attempt α} {a : α} {w' : World} (h : w.after x.run = (.ok a, w'))
    (f : α → Attempt β) : w.after (x >>= f).run = w'.after (f a).run := by
  rw [after_bind, h]

@[simp] theorem after_pure (w : World) (a : α) : w.after (pure a : Attempt α).run = (.ok a, w) :=
  rfl

@[simp] theorem after_refuse (w : World) (cause : Malformed) :
    w.after (Attempt.refuse cause : Attempt α).run = (.error (.malformed cause), w) :=
  rfl

@[simp] theorem after_record (w : World) (observation : Observation) :
    w.after (Attempt.record observation).run = (.ok (), w.record observation) :=
  rfl

theorem after_lift (w : World) (p : Process α) :
    w.after (ExceptT.lift p : Attempt α).run = (.ok (w.after p).1, (w.after p).2) := by
  rw [ExceptT.run_lift, map_eq_pure_bind, after, Process.run_bind]
  rfl

theorem after_store (h : w.Calm) (query : Store.Query) :
    w.after (Attempt.store query).run =
      (.ok (w.store.ask query).1, { w with store := (w.store.ask query).2 }) := by
  show ((w.askStore query).1.mapError _, (w.askStore query).2) = _
  rw [askStore_of_calm h]
  rfl

theorem after_cache (h : w.Calm) (query : Cache.Query) :
    w.after (Attempt.cache query).run =
      (.ok (w.cache.ask w.clock.instant query).1,
        { w with cache := (w.cache.ask w.clock.instant query).2 }) := by
  show ((w.askCache query).1.mapError _, (w.askCache query).2) = _
  rw [askCache_of_calm h]
  rfl

theorem after_publish (h : w.Calm) (event : Event) :
    w.after (Attempt.publish event).run = (.ok (), { w with log := w.log ++ [event] }) := by
  show ((w.publish event).1.mapError _, (w.publish event).2) = _
  rw [publish_of_calm h]
  rfl

theorem after_cachedPrice (h : w.Calm) (symbol : String) :
    w.after (Attempt.cachedPrice symbol).run =
      (.ok (w.cache.prices.get? w.clock.instant symbol), w) := by
  show (Except.ok (w.askCache (.price symbol)).1.toOption.join, (w.askCache (.price symbol)).2) = _
  rw [askCache_of_calm h]
  rfl

theorem after_cachedSignals (h : w.Calm) (symbol : String) :
    w.after (Attempt.cachedSignals symbol).run =
      (.ok (w.cache.signals.get? w.clock.instant symbol), w) := by
  show (Except.ok (w.askCache (.signals symbol)).1.toOption.join,
    (w.askCache (.signals symbol)).2) = _
  rw [askCache_of_calm h]
  rfl

/-! ### Looking up -/

/-- The latest price of a symbol that a world knows of, the cached one first. -/
def knownPrice (w : World) (symbol : String) : Option Bar :=
  (w.cache.prices.get? w.clock.instant symbol).or (w.store.latestPrice symbol)

/-- The cache once the latest price of a symbol was looked up. -/
def cacheWithPrice (w : World) (symbol : String) : Cache :=
  match w.cache.prices.get? w.clock.instant symbol, w.store.latestPrice symbol with
  | none, some bar => w.cache.setPrice w.clock.instant bar
  | _, _ => w.cache

theorem knownPrice_eq_none_iff {symbol : String} :
    w.knownPrice symbol = none ↔
      w.cache.prices.get? w.clock.instant symbol = none ∧ w.store.latestPrice symbol = none :=
  Option.or_eq_none_iff

/-- Where no price is known there is none to cache. -/
theorem cacheWithPrice_of_unknown {symbol : String} (h : w.knownPrice symbol = none) :
    w.cacheWithPrice symbol = w.cache := by
  obtain ⟨hcached, hstored⟩ := knownPrice_eq_none_iff.mp h
  rw [cacheWithPrice, hcached, hstored]

/-- The decision that is made on a request: that of the primary source, under the source's own
origin, or of the rules at the time the clock then shows. -/
def decisionOn (w : World) (request : DecisionRequest) : Decision :=
  match w.primary with
  | none => Rules.decide request w.clock.now
  | some source =>
    match (source.answer w.asked w.clock.now request).result with
    | .ok decision => { decision with source := source.origin }
    | .error _ => Rules.decide request w.clock.tick.now

/-- The requests the primary source was asked once it is asked one more, where there is a source. -/
def askedAlso (w : World) (request : DecisionRequest) : List DecisionRequest :=
  if w.primary.isSome then w.asked ++ [request] else w.asked

/-- The world with other metrics, other requests asked and another number of clock readings: what
no stage looks at. -/
def aside (w : World) (metrics : Option Metrics) (asked : List DecisionRequest) (read : Nat) :
    World :=
  { w with metrics, asked, clock := { w.clock with read } }

end World

namespace Pipeline

variable {α : Type} {w : World} {config : Config} {symbol market : String}

/-- What speaks against an event of a symbol and a market, by the instrument of the symbol. -/
def objection? (symbol market : String) (found : Option Instrument) : Option Malformed :=
  if (Text.trim symbol.toList).isEmpty then some .emptySymbol
  else
    match found with
    | none => some (.unknownInstrument symbol)
    | some instrument =>
      if instrument.market = market then none
      else some (.marketMismatch symbol market instrument.market)

/-- What follows a validation is run exactly where nothing speaks against the event. -/
theorem after_validate (h : w.Calm) (x : Attempt α) :
    w.after (validate symbol market >>= fun _ => x).run =
      match objection? symbol market (w.store.findInstrument symbol) with
      | some cause => (.error (.malformed cause), w)
      | none => w.after x.run := by
  rw [World.after_bind]
  unfold validate objection?
  by_cases hblank : (Text.trim symbol.toList).isEmpty
  · simp only [hblank, if_true, World.after_refuse]
  · simp only [hblank, Bool.false_eq_true, if_false, World.after_bind, World.after_store h,
      Store.ask]
    cases w.store.findInstrument symbol with
    | none => simp only [World.after_refuse]
    | some instrument =>
        by_cases hmarket : instrument.market = market
        · simp only [hmarket, if_true, World.after_pure]
        · simp only [hmarket, if_false, World.after_refuse]

/-! ### Parts of a stage -/

theorem after_latestPrice (h : w.Calm) :
    w.after (latestPrice symbol).run =
      (.ok (w.knownPrice symbol), { w with cache := w.cacheWithPrice symbol }) := by
  rw [latestPrice, World.after_bind, World.after_cachedPrice h, World.knownPrice,
    World.cacheWithPrice]
  cases w.cache.prices.get? w.clock.instant symbol with
  | some bar => rfl
  | none =>
      simp only [World.after_bind, World.after_store h, Store.ask]
      cases w.store.latestPrice symbol with
      | none => rfl
      | some bar => simp only [World.after_bind, World.after_cache h, Cache.ask, World.after_pure,
          Option.none_or]

theorem after_recentSignals (h : w.Calm) :
    w.after (recentSignals config symbol).run =
      match w.cache.signals.get? w.clock.instant symbol with
      | some signals => (.ok signals, w)
      | none =>
        let recent := w.store.recentSignals symbol config.recentSignals
        (.ok recent, { w with cache := w.cache.setSignals w.clock.instant symbol recent }) := by
  rw [recentSignals, World.after_bind, World.after_cachedSignals h]
  cases w.cache.signals.get? w.clock.instant symbol with
  | some signals => rfl
  | none => simp only [World.after_bind, World.after_store h, Store.ask, World.after_cache h,
      Cache.ask, World.after_pure]

/-- A decision changes nothing that a stage looks at. The primary source is asked once. -/
theorem after_decide (w : World) (request : DecisionRequest) : ∃ metrics read,
    w.after (decide request) =
      (w.decisionOn request, w.aside metrics (w.askedAlso request) read) := by
  cases hprimary : w.primary with
  | none =>
      refine ⟨w.metrics, w.clock.read + 1, ?_⟩
      simp only [World.after, decide, decideByRules, Process.perform, Process.call_bind,
        Process.done_bind, Process.pure_eq, Process.run, World.answer, World.consult,
        World.decisionOn, World.aside, World.askedAlso, hprimary]
      rfl
  | some source =>
      let answered := source.answer w.asked w.clock.now request
      let timed := w.metrics.map (·.record (.decisionSeconds answered.seconds))
      cases hresult : answered.result with
      | ok decision =>
          refine ⟨timed, w.clock.read + 1, ?_⟩
          simp only [World.after, decide, Process.perform, Process.call_bind, Process.done_bind,
            Process.pure_eq, Process.run, World.answer, World.consult, World.decisionOn,
            World.aside, World.askedAlso, hprimary, hresult, answered]
          rfl
      | error e =>
          refine ⟨timed.map (·.record (.fallbacks 1)), w.clock.read + 2, ?_⟩
          simp only [World.after, decide, decideByRules, Process.perform, Process.call_bind,
            Process.done_bind, Process.pure_eq, Process.run, World.answer, World.consult,
            World.decisionOn, World.aside, World.askedAlso, hprimary, hresult, answered]
          rfl

/-! ### Stages -/

theorem after_recordPrice (h : w.Calm) (bar : Bar) :
    w.after (recordPrice bar).run =
      match objection? bar.symbol bar.market (w.store.findInstrument bar.symbol) with
      | some cause => (.error (.malformed cause), w)
      | none =>
        (.ok (), { w with
          store := w.store.appendPrice bar
          log := w.log ++ [.priceIngested bar.symbol bar.market] }) := by
  rw [recordPrice, after_validate h, World.after_bind_ok (World.after_store h _),
    World.after_publish (by exact h)]
  rfl

theorem after_onPriceIngested (h : w.Calm) :
    w.after (onPriceIngested symbol market).run =
      match objection? symbol market (w.store.findInstrument symbol) with
      | some cause => (.error (.malformed cause), w)
      | none =>
        (.ok .advanced, { w with
          cache := w.cache.invalidate symbol
          log := w.log ++ [.indicatorRequested symbol market] }) := by
  rw [onPriceIngested, after_validate h, World.after_bind_ok (World.after_cache h _),
    World.after_bind_ok (World.after_publish (by exact h) _)]
  rfl

theorem after_onIndicatorRequested (h : w.Calm) (config : Config) (symbol market : String) :
    ∃ metrics,
    w.after (onIndicatorRequested config symbol market).run =
      match objection? symbol market (w.store.findInstrument symbol) with
      | some cause => (.error (.malformed cause), w)
      | none =>
        match config.lookbacks.compute symbol
            (w.store.recentPrices symbol config.effectivePriceWindow) with
        | .error error => (.ok (.endedEarly error), { w with metrics })
        | .ok snapshot =>
          (.ok .advanced, { w with
            store := w.store.appendSnapshot snapshot
            cache := w.cache.setSnapshot w.clock.instant snapshot
            log := w.log ++ [.decisionRequested symbol market snapshot] }) := by
  rw [onIndicatorRequested, after_validate h, World.after_bind_ok (World.after_store h _)]
  simp only [Store.ask]
  cases config.lookbacks.compute symbol
      (w.store.recentPrices symbol config.effectivePriceWindow) with
  | error error =>
      cases error with
      | insufficientData required available =>
          exact ⟨w.metrics.map (·.record (.insufficientData 1)), rfl⟩
      | nonFinitePrice name time => exact ⟨w.metrics, rfl⟩
  | ok snapshot =>
      refine ⟨none, ?_⟩
      simp only []
      rw [World.after_bind_ok (World.after_store (by exact h) _),
        World.after_bind_ok (World.after_cache (by exact h) _),
        World.after_bind_ok (World.after_publish (by exact h) _)]
      rfl

/-- The signal that a decision on a price and a snapshot makes. -/
def signalOn (config : Config) (decide : DecisionRequest → Decision) (market : String)
    (price : Bar) (indicators : Snapshot) : Signal :=
  let decision := decide (request config price indicators)
  Signal.ofDecision decision market (decision.strength indicators.readings)

theorem after_onDecisionRequested (h : w.Calm) (config : Config) (symbol market : String)
    (indicators : Snapshot) : ∃ metrics read,
      w.after (onDecisionRequested config symbol market indicators).run =
        match objection? symbol market (w.store.findInstrument symbol) with
        | some cause => (.error (.malformed cause), w)
        | none =>
          if indicators.symbol = symbol then
            match w.knownPrice symbol with
            | none => (.error (.malformed (.noPrice symbol)), w)
            | some price =>
              let signal := signalOn config w.decisionOn market price indicators
              let store := w.store.appendSignal signal
              let recent := store.recentSignals symbol config.recentSignals
              (.ok .advanced, World.aside { w with
                store
                cache := (w.cacheWithPrice symbol).setSignals w.clock.instant symbol recent
                log := w.log ++ [.signalGenerated symbol market signal] } metrics
                (w.askedAlso (request config price indicators)) read)
          else (.error (.malformed (.foreignSnapshot indicators.symbol symbol)), w) := by
  rw [onDecisionRequested, after_validate h]
  cases objection? symbol market (w.store.findInstrument symbol) with
  | some cause => exact ⟨none, 0, rfl⟩
  | none =>
      by_cases hsymbol : indicators.symbol = symbol
      · simp only [hsymbol, if_true]
        rw [World.after_bind_ok (after_latestPrice h)]
        cases hknown : w.knownPrice symbol with
        | none =>
            refine ⟨none, 0, ?_⟩
            simp only [World.after_refuse, World.cacheWithPrice_of_unknown hknown]
        | some price =>
            let looked : World := { w with cache := w.cacheWithPrice symbol }
            obtain ⟨metrics, read, hdecide⟩ :=
              after_decide looked (request config price indicators)
            let source := (signalOn config w.decisionOn market price indicators).source
            refine ⟨metrics.map (·.record (.signals source.name 1)), read, ?_⟩
            simp only []
            rw [World.after_bind_ok (World.after_lift _ _), hdecide,
              World.after_bind_ok (World.after_store (by exact h) _),
              World.after_bind_ok (World.after_store (by exact h) _),
              World.after_bind_ok (World.after_cache (by exact h) _),
              World.after_bind_ok (World.after_record _ _),
              World.after_bind_ok (World.after_publish (by exact h) _)]
            rfl
      · simp only [hsymbol, if_false]
        exact ⟨none, 0, rfl⟩

theorem after_onSignalGenerated (h : w.Calm) :
    w.after (onSignalGenerated symbol market).run =
      match objection? symbol market (w.store.findInstrument symbol) with
      | some cause => (.error (.malformed cause), w)
      | none => (.ok .completed, w) := by
  rw [onSignalGenerated, after_validate h]
  rfl

/-- A stage is run once its event was counted. -/
theorem after_handle (w : World) (event : Event) :
    w.after (handle config event).run =
      (w.record (.stageEvents event.stage.queue 1)).after (stageOf config event).run :=
  World.after_bind_ok (World.after_record _ _) _

end Pipeline

end MarketSignals
