import Mathlib.Control.Monad.Basic
import MarketSignals.Proofs.Pipeline.Calm

/-!
# Malformed events

An event that is refused as malformed leaves no trace: on every path to a refusal, whatever fails on
the way, only reading calls were made. Where nothing fails, exactly the events are refused that do
not fit the instrument they name, and the decisions that are asked for with a foreign snapshot or
before there is a price.

## Main results

* `Attempt.ReadsUntilRefused`, `Attempt.Accepts`: what every path to a refusal has in common, and
  attempts that have none, with the rules for the steps of a stage.
* `handle_readsUntilRefused`, `recordPrice_readsUntilRefused`: every operation reads until it
  refuses.
* `handle_refused_iff`, `recordPrice_refused_iff`: what is refused where nothing fails.
* `malformed_refused_untouched`: both together.
-/

namespace MarketSignals

namespace Attempt

variable {α β : Type}

/-- No path ends with a refusal. -/
def Accepts (x : Attempt α) : Prop :=
  ∀ t cause, ¬ Process.Path x.run t (.done (.error (.malformed cause)))

/-- On every path that ends with a refusal, all calls were reading. -/
def ReadsUntilRefused (x : Attempt α) : Prop :=
  ∀ t cause, Process.Path x.run t (.done (.error (.malformed cause))) →
    ∀ y ∈ t, y.call.IsRead

/-! ### Attempts that accept -/

theorem accepts_bind {x : Attempt α} {f : α → Attempt β} (hx : Accepts x)
    (hf : ∀ a, Accepts (f a)) : Accepts (x >>= f) := by
  intro t cause h
  rcases path_bind h with ⟨p, hp, hfailed⟩ | ⟨t₁, t₂, a, -, -, hrest⟩
  · obtain ⟨e, he, rfl⟩ := hfailed _ rfl
    cases he
    exact hx t cause hp
  · exact hf a t₂ cause hrest

/-- A process accepts where none of its results is a refusal. -/
theorem accepts_of_results {p : Process β} {g : β → Except PipelineError α}
    (hg : ∀ b cause, g b ≠ .error (.malformed cause)) :
    Accepts (ExceptT.mk (p >>= fun b => .done (g b))) := by
  intro t cause h
  rcases Process.path_bind h with ⟨p', -, hdone⟩ | ⟨t₁, t₂, b, -, -, hrest⟩
  · cases p' with
    | done b => exact hg b cause (Process.done.inj hdone).symm
    | call c next => cases hdone
  · exact hg b cause (Process.done.inj hrest.of_done.2).symm

theorem accepts_pure (a : α) : Accepts (pure a : Attempt α) :=
  accepts_of_results (p := .done ()) (g := fun _ => .ok a) (by simp)

theorem accepts_lift (p : Process α) : Accepts (ExceptT.lift p : Attempt α) :=
  accepts_of_results (g := Except.ok) (by simp)

theorem accepts_record (observation : Observation) : Accepts (record observation) :=
  accepts_lift _

theorem accepts_store (query : Store.Query) : Accepts (store query) :=
  accepts_of_results fun answer cause h => by cases answer <;> cases h

theorem accepts_cache (query : Cache.Query) : Accepts (cache query) :=
  accepts_of_results fun answer cause h => by cases answer <;> cases h

theorem accepts_publish (event : Event) : Accepts (publish event) :=
  accepts_of_results fun answer cause h => by cases answer <;> cases h

/-! ### Attempts that read until they refuse -/

theorem Accepts.readsUntilRefused {x : Attempt α} (h : Accepts x) : ReadsUntilRefused x :=
  fun t cause hpath => absurd hpath (h t cause)

theorem readsUntilRefused_refuse (cause : Malformed) :
    ReadsUntilRefused (refuse cause : Attempt α) := by
  intro t cause' h
  simp [h.of_done.1]

/-- What only reads may come before. -/
theorem readsUntilRefused_bind {x : Attempt α} {f : α → Attempt β} (hx : Only Call.IsRead x)
    (hf : ∀ a, ReadsUntilRefused (f a)) : ReadsUntilRefused (x >>= f) := by
  intro t cause h
  rcases path_bind h with ⟨p, hp, -⟩ | ⟨t₁, t₂, a, rfl, hp, hrest⟩
  · exact hx.calls hp
  · intro y hy
    rcases List.mem_append.mp hy with hfirst | hthen
    · exact hx.calls hp y hfirst
    · exact hf a t₂ cause hrest y hthen

end Attempt

namespace Pipeline

variable {config : Config}

/-- A price that is not found was only looked for. -/
theorem reads_of_latestPrice_none {symbol : String} {t : List Exchange}
    (h : Process.Path (latestPrice symbol).run t (.done (.ok none))) :
    ∀ y ∈ t, y.call.IsRead := by
  have hcached : Attempt.Only Call.IsRead (Attempt.cachedPrice symbol) :=
    Attempt.only_cachedPrice rfl
  have hstored : Attempt.Only Call.IsRead (Attempt.store (.latestPrice symbol)) :=
    Attempt.only_store rfl
  rcases Attempt.path_bind h with ⟨p, -, hfailed⟩ | ⟨t₁, t₂, cached, rfl, hfirst, hrest⟩
  · obtain ⟨e, he, -⟩ := hfailed _ rfl
    cases he
  · cases cached with
    | some bar => cases hrest.of_done.2
    | none =>
        rcases Attempt.path_bind hrest with ⟨p, -, hfailed⟩ | ⟨t₃, t₄, stored, rfl, hthen, hlast⟩
        · obtain ⟨e, he, -⟩ := hfailed _ rfl
          cases he
        · cases stored with
          | none =>
              obtain rfl := hlast.of_done.1
              intro y hy
              rcases List.mem_append.mp hy with hy | hy
              · exact hcached.calls hfirst y hy
              · exact hstored.calls hthen y (by simpa using hy)
          | some bar =>
              rcases Attempt.path_bind hlast with ⟨p, -, hfailed⟩ | ⟨t₅, t₆, a, -, -, hdone⟩
              · obtain ⟨e, he, -⟩ := hfailed _ rfl
                cases he
              · cases hdone.of_done.2

theorem accepts_latestPrice (symbol : String) : (latestPrice symbol).Accepts := by
  refine Attempt.accepts_bind (Attempt.accepts_lift _) fun cached => ?_
  cases cached with
  | some bar => exact Attempt.accepts_pure _
  | none =>
      refine Attempt.accepts_bind (Attempt.accepts_store _) fun stored => ?_
      cases stored with
      | none => exact Attempt.accepts_pure _
      | some bar => exact Attempt.accepts_bind (Attempt.accepts_cache _) fun _ =>
          Attempt.accepts_pure _

/-- The latest price may come before what refuses only for want of a price. -/
theorem readsUntilRefused_bind_latestPrice {α : Type} {symbol : String}
    {f : Option Bar → Attempt α} (hnone : (f none).ReadsUntilRefused)
    (hsome : ∀ bar, (f (some bar)).Accepts) : (latestPrice symbol >>= f).ReadsUntilRefused := by
  intro t cause h
  rcases Attempt.path_bind h with ⟨p, hp, hfailed⟩ | ⟨t₁, t₂, known, rfl, hfirst, hrest⟩
  · obtain ⟨e, he, rfl⟩ := hfailed _ rfl
    cases he
    exact absurd hp (accepts_latestPrice symbol t cause)
  · cases known with
    | some bar => exact absurd hrest (hsome bar t₂ cause)
    | none =>
        intro y hy
        rcases List.mem_append.mp hy with hy | hy
        · exact reads_of_latestPrice_none hfirst y hy
        · exact hnone t₂ cause hrest y hy

theorem onPriceIngested_readsUntilRefused (symbol market : String) :
    (onPriceIngested symbol market).ReadsUntilRefused := by
  refine Attempt.readsUntilRefused_bind (reads_validate _ _) fun _ => ?_
  refine (Attempt.accepts_bind (Attempt.accepts_cache _) fun _ => ?_).readsUntilRefused
  exact Attempt.accepts_bind (Attempt.accepts_publish _) fun _ => Attempt.accepts_pure _

theorem onIndicatorRequested_readsUntilRefused (symbol market : String) :
    (onIndicatorRequested config symbol market).ReadsUntilRefused := by
  refine Attempt.readsUntilRefused_bind (reads_validate _ _) fun _ => ?_
  refine (Attempt.accepts_bind (Attempt.accepts_store _) fun bars => ?_).readsUntilRefused
  cases config.lookbacks.compute symbol bars with
  | error e =>
      cases e with
      | insufficientData required available =>
          exact Attempt.accepts_bind (Attempt.accepts_record _) fun _ => Attempt.accepts_pure _
      | nonFinitePrice name time => exact Attempt.accepts_pure _
  | ok snapshot =>
      refine Attempt.accepts_bind (Attempt.accepts_store _) fun _ => ?_
      refine Attempt.accepts_bind (Attempt.accepts_cache _) fun _ => ?_
      exact Attempt.accepts_bind (Attempt.accepts_publish _) fun _ => Attempt.accepts_pure _

theorem onDecisionRequested_readsUntilRefused (symbol market : String) (indicators : Snapshot) :
    (onDecisionRequested config symbol market indicators).ReadsUntilRefused := by
  refine Attempt.readsUntilRefused_bind (reads_validate _ _) fun _ => ?_
  split
  · refine readsUntilRefused_bind_latestPrice (Attempt.readsUntilRefused_refuse _) fun price => ?_
    refine Attempt.accepts_bind (Attempt.accepts_lift _) fun decision => ?_
    refine Attempt.accepts_bind (Attempt.accepts_store _) fun _ => ?_
    refine Attempt.accepts_bind (Attempt.accepts_store _) fun recent => ?_
    refine Attempt.accepts_bind (Attempt.accepts_cache _) fun _ => ?_
    refine Attempt.accepts_bind (Attempt.accepts_record _) fun _ => ?_
    exact Attempt.accepts_bind (Attempt.accepts_publish _) fun _ => Attempt.accepts_pure _
  · exact Attempt.readsUntilRefused_refuse _

/-- Every stage reads until it refuses its event. -/
theorem handle_readsUntilRefused (event : Event) : (handle config event).ReadsUntilRefused := by
  refine Attempt.readsUntilRefused_bind (Attempt.only_record trivial) fun _ => ?_
  unfold stageOf
  split
  · exact onPriceIngested_readsUntilRefused _ _
  · exact onIndicatorRequested_readsUntilRefused _ _
  · exact onDecisionRequested_readsUntilRefused _ _ _
  · exact Attempt.readsUntilRefused_bind (reads_validate _ _) fun _ =>
      (Attempt.accepts_pure _).readsUntilRefused

/-- A price is looked at until it is refused. -/
theorem recordPrice_readsUntilRefused (bar : Bar) : (recordPrice bar).ReadsUntilRefused := by
  refine Attempt.readsUntilRefused_bind (reads_validate _ _) fun _ => ?_
  refine (Attempt.accepts_bind (Attempt.accepts_store _) fun _ => ?_).readsUntilRefused
  exact Attempt.accepts_publish _

end Pipeline

/-- What reads until it refuses leaves the world untouched where it refuses. -/
theorem Attempt.ReadsUntilRefused.untouched {α : Type} {x : Attempt α} (hx : x.ReadsUntilRefused)
    {w : World} {cause : Malformed} (h : (w.after x.run).1 = .error (.malformed cause)) :
    w.Untouched (w.after x.run).2 := by
  have hpath := w.path_after x.run
  rw [h] at hpath
  exact World.untouched_after (hx _ cause hpath)

/-! ### What is refused -/

/-- A symbol and a market fit no instrument: the symbol is blank, unknown, or of another market. -/
def Store.Misfit (s : Store) (symbol market : String) : Prop :=
  Text.trim symbol.toList = [] ∨ s.findInstrument symbol = none ∨
    ∃ instrument, s.findInstrument symbol = some instrument ∧ instrument.market ≠ market

/-- What an event asks for cannot be decided: its snapshot is of another symbol, or no price of the
symbol is cached or stored. -/
def World.Undecidable (w : World) : Event → Prop
  | .decisionRequested symbol _ indicators =>
    indicators.symbol ≠ symbol ∨
      w.cache.prices.get? w.clock.instant symbol = none ∧ w.store.latestPrice symbol = none
  | .priceIngested _ _ | .indicatorRequested _ _ | .signalGenerated _ _ _ => False

namespace Pipeline

variable {w : World} {config : Config}

theorem exists_objection_iff {s : Store} {symbol market : String} :
    (∃ cause, objection? symbol market (s.findInstrument symbol) = some cause) ↔
      s.Misfit symbol market := by
  unfold objection? Store.Misfit
  by_cases hblank : Text.trim symbol.toList = []
  · simp [hblank]
  · cases s.findInstrument symbol with
    | none => simp [hblank]
    | some instrument =>
        by_cases hmarket : instrument.market = market <;> simp [hblank, hmarket]

/-- Where nothing fails, a stage refuses exactly the events that fit no instrument or that cannot be
decided. -/
theorem stageOf_refused_iff (h : w.Calm) (event : Event) :
    (∃ cause, (w.after (stageOf config event).run).1 = .error (.malformed cause)) ↔
      w.store.Misfit event.symbol event.market ∨ w.Undecidable event := by
  rw [← exists_objection_iff]
  cases event with
  | priceIngested symbol market =>
      rw [stageOf, after_onPriceIngested h, Event.symbol, Event.market, World.Undecidable]
      cases objection? symbol market (w.store.findInstrument symbol) <;> simp
  | indicatorRequested symbol market =>
      obtain ⟨metrics, hafter⟩ := after_onIndicatorRequested h config symbol market
      rw [stageOf, hafter, Event.symbol, Event.market, World.Undecidable]
      cases objection? symbol market (w.store.findInstrument symbol) with
      | some cause => simp
      | none =>
          cases config.lookbacks.compute symbol
              (w.store.recentPrices symbol config.effectivePriceWindow) <;> simp
  | decisionRequested symbol market indicators =>
      obtain ⟨metrics, read, hafter⟩ :=
        after_onDecisionRequested h config symbol market indicators
      rw [stageOf, hafter, Event.symbol, Event.market, World.Undecidable]
      cases objection? symbol market (w.store.findInstrument symbol) with
      | some cause => simp
      | none =>
          by_cases hsymbol : indicators.symbol = symbol
          · rw [← World.knownPrice_eq_none_iff]
            cases w.knownPrice symbol <;> simp [hsymbol]
          · simp [hsymbol]
  | signalGenerated symbol market signal =>
      rw [stageOf, after_onSignalGenerated h, Event.symbol, Event.market, World.Undecidable]
      cases objection? symbol market (w.store.findInstrument symbol) <;> simp

/-- Where nothing fails, handling refuses exactly the events that fit no instrument or that cannot
be decided. -/
theorem handle_refused_iff (h : w.Calm) (event : Event) :
    (∃ cause, (w.after (handle config event).run).1 = .error (.malformed cause)) ↔
      w.store.Misfit event.symbol event.market ∨ w.Undecidable event := by
  rw [after_handle]
  exact stageOf_refused_iff (w := w.record _) h event

/-- Where nothing fails, exactly the prices are refused that fit no instrument. -/
theorem recordPrice_refused_iff (h : w.Calm) (bar : Bar) :
    (∃ cause, (w.after (recordPrice bar).run).1 = .error (.malformed cause)) ↔
      w.store.Misfit bar.symbol bar.market := by
  rw [after_recordPrice h, ← exists_objection_iff]
  cases objection? bar.symbol bar.market (w.store.findInstrument bar.symbol) <;> simp

/-- **What is malformed is refused, and leaves no trace.** Whatever fails on the way, an event or a
price that is refused as malformed has changed neither the store nor the cache nor the log, and the
primary source was not asked. Where nothing fails, exactly the events are refused whose symbol is
blank, unknown or of another market, and the decisions that are asked for with a snapshot of another
symbol or while no price of the symbol is cached or stored; of prices, exactly the former. -/
theorem malformed_refused_untouched (config : Config) (w : World) :
    (∀ event cause, (w.after (handle config event).run).1 = .error (.malformed cause) →
      w.Untouched (w.after (handle config event).run).2) ∧
    (∀ bar cause, (w.after (recordPrice bar).run).1 = .error (.malformed cause) →
      w.Untouched (w.after (recordPrice bar).run).2) ∧
    (w.faults = Faults.none →
      (∀ event, (∃ cause, (w.after (handle config event).run).1 = .error (.malformed cause)) ↔
        w.store.Misfit event.symbol event.market ∨ w.Undecidable event) ∧
      ∀ bar, (∃ cause, (w.after (recordPrice bar).run).1 = .error (.malformed cause)) ↔
        w.store.Misfit bar.symbol bar.market) :=
  ⟨fun event _ hrefused => (handle_readsUntilRefused event).untouched hrefused,
    fun bar _ hrefused => (recordPrice_readsUntilRefused bar).untouched hrefused,
    fun hcalm => ⟨handle_refused_iff hcalm, recordPrice_refused_iff hcalm⟩⟩

/-- A world with one instrument that has no price, whose cache fails once at every use. -/
def priceless : World where
  store := Store.addInstrument {} ⟨"AAPL", "NASDAQ", "", true⟩
  faults := { cache := fun _ => [some (.server "down")] }
  clock := { readings := fun _ => .epoch }

/-- A decision that is asked for before there is a price. -/
def earlyDecision : Event :=
  .decisionRequested "AAPL" "NASDAQ"
    ⟨"AAPL", ⟨50, ⟨0, 0, 0⟩, 100, 100, 100, 100, ⟨100, 100, 100⟩, ⟨50, 50⟩, -50, 0, 0⟩, 50, .epoch⟩

/-- A bar that names another market than its instrument. -/
def strayBar : Bar :=
  ⟨"AAPL", "XETRA", 10, 11, 9, 10, 1000, 0, .epoch⟩

/-- A decision is refused for want of a price although the cache failed, and a stray price is
refused; neither leaves a trace, and both are what is refused where nothing fails. -/
theorem malformed_refused_untouched_priceless :
    let calm : World := { priceless with faults := Faults.none }
    ((priceless.after (handle {} earlyDecision).run).1 = .error (.malformed (.noPrice "AAPL")) ∧
      priceless.Untouched (priceless.after (handle {} earlyDecision).run).2) ∧
    ((priceless.after (recordPrice strayBar).run).1 =
        .error (.malformed (.marketMismatch "AAPL" "XETRA" "NASDAQ")) ∧
      priceless.Untouched (priceless.after (recordPrice strayBar).run).2) ∧
    calm.Undecidable earlyDecision ∧
    (∃ cause, (calm.after (handle {} earlyDecision).run).1 = .error (.malformed cause)) ∧
    calm.store.Misfit strayBar.symbol strayBar.market ∧
    ∃ cause, (calm.after (recordPrice strayBar).run).1 = .error (.malformed cause) := by
  intro calm
  have hearly : (priceless.after (handle {} earlyDecision).run).1 =
      .error (.malformed (.noPrice "AAPL")) := by
    decide +kernel
  have hstray : (priceless.after (recordPrice strayBar).run).1 =
      .error (.malformed (.marketMismatch "AAPL" "XETRA" "NASDAQ")) := by
    decide +kernel
  have hundecidable : calm.Undecidable earlyDecision := .inr ⟨rfl, rfl⟩
  have hmisfit : calm.store.Misfit strayBar.symbol strayBar.market :=
    .inr (.inr ⟨⟨"AAPL", "NASDAQ", "", true⟩, rfl, by decide⟩)
  obtain ⟨hevent, hbar, -⟩ := malformed_refused_untouched {} priceless
  obtain ⟨-, -, hexact⟩ := malformed_refused_untouched {} calm
  exact ⟨⟨hearly, hevent _ _ hearly⟩, ⟨hstray, hbar _ _ hstray⟩, hundecidable,
    ((hexact rfl).1 _).mpr (.inr hundecidable), hmisfit, ((hexact rfl).2 _).mpr hmisfit⟩

end Pipeline

end MarketSignals
