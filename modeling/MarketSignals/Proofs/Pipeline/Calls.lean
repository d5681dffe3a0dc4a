import MarketSignals.Pipeline.Upkeep
import MarketSignals.Proofs.Pipeline.History

/-!
# The calls of a cycle

Which calls the parts of a cycle may make, whatever they are answered. A part is quiet where none
of its calls publishes an event; every part but the last step of a stage is. A part reads where its
calls change neither the store nor the cache, publish nothing and ask no source; only the beginning
of a stage does.

## Main results

* `only_validate`, `only_latestPrice`, `only_recentSignals`, `only_decide`, `only_pruneHistory`:
  the calls of each part, for any kind of call that contains them.
* `only_recordPrice`, `only_onPriceIngested`, `only_onIndicatorRequested`, `only_onSignalGenerated`,
  `only_refreshActive`: the same for whole operations.
* `published_eq_nil`: where every call is quiet, nothing is published.
* `World.untouched_of_read`: a call that reads leaves store, cache, log and primary source alone.
-/

namespace MarketSignals

/-- A call that publishes nothing. -/
def Call.IsQuiet (call : Call) : Prop :=
  ∀ event, call ≠ .publish event

/-- Where every call is quiet, nothing is published. -/
theorem published_eq_nil {history : List Exchange} (h : ∀ x ∈ history, x.call.IsQuiet) :
    published history = [] := by
  refine List.filterMap_eq_nil_iff.mpr fun x hx => ?_
  have hquiet := h x hx
  unfold Exchange.published?
  split
  · exact absurd rfl (hquiet _)
  · rfl

namespace Attempt

theorem quiet_store (query : Store.Query) : Only Call.IsQuiet (store query) :=
  only_store fun _ => by simp

theorem quiet_cache (query : Cache.Query) : Only Call.IsQuiet (cache query) :=
  only_cache fun _ => by simp

theorem quiet_record (observation : Observation) : Only Call.IsQuiet (record observation) :=
  only_record fun _ => by simp

end Attempt

namespace Pipeline

variable {allowed : Call → Prop}

/-- Validation looks up the instrument. -/
theorem only_validate {symbol market : String} (hfind : allowed (.store (.findInstrument symbol))) :
    Attempt.Only allowed (validate symbol market) := by
  unfold validate
  split
  · exact Attempt.only_refuse _
  · refine Attempt.only_bind (Attempt.only_store hfind) fun found => ?_
    cases found with
    | none => exact Attempt.only_refuse _
    | some instrument =>
        dsimp only
        split
        · exact Attempt.only_pure _
        · exact Attempt.only_refuse _

/-- The latest price is read from the cache, else from the store into the cache. -/
theorem only_latestPrice {symbol : String} (hget : allowed (.cache (.price symbol)))
    (hread : allowed (.store (.latestPrice symbol)))
    (hset : ∀ bar, allowed (.cache (.setPrice bar))) :
    Attempt.Only allowed (latestPrice symbol) := by
  refine Attempt.only_bind (Attempt.only_cachedPrice hget) fun cached => ?_
  cases cached with
  | some bar => exact Attempt.only_pure _
  | none =>
      refine Attempt.only_bind (Attempt.only_store hread) fun latest => ?_
      cases latest with
      | some bar => exact Attempt.only_bind (Attempt.only_cache (hset bar)) fun _ => trivial
      | none => exact Attempt.only_pure _

/-- The recent signals are read from the cache, else from the store into the cache. -/
theorem only_recentSignals {config : Config} {symbol : String}
    (hget : allowed (.cache (.signals symbol)))
    (hread : allowed (.store (.recentSignals symbol config.recentSignals)))
    (hset : ∀ signals, allowed (.cache (.setSignals symbol signals))) :
    Attempt.Only allowed (recentSignals config symbol) := by
  refine Attempt.only_bind (Attempt.only_cachedSignals hget) fun cached => ?_
  cases cached with
  | some signals => exact Attempt.only_pure _
  | none =>
      refine Attempt.only_bind (Attempt.only_store hread) fun signals => ?_
      exact Attempt.only_bind (Attempt.only_cache (hset signals)) fun _ => trivial

/-- A decision takes the primary source and the clock, and tells the metrics of the source. -/
theorem only_decide_told {request : DecisionRequest} (hconsult : allowed (.consult request))
    (hnow : allowed .now) (htimed : ∀ seconds, allowed (.record (.decisionSeconds seconds)))
    (hfailed : allowed (.record (.fallbacks 1))) : (decide request).Only allowed := by
  have hrules : (decideByRules request).Only allowed :=
    (Process.only_perform hnow).bind fun _ => trivial
  refine (Process.only_perform hconsult).bind fun answered => ?_
  cases answered with
  | none => exact hrules
  | some answered =>
      obtain ⟨origin, answer⟩ := answered
      refine (Process.only_perform (htimed _)).bind fun _ => ?_
      cases answer.result with
      | ok decision => trivial
      | error e => exact (Process.only_perform hfailed).bind fun _ => hrules

/-- A decision takes the primary source, the clock and the metrics. -/
theorem only_decide {request : DecisionRequest} (hconsult : allowed (.consult request))
    (hnow : allowed .now) (hrecord : ∀ observation, allowed (.record observation)) :
    (decide request).Only allowed :=
  only_decide_told hconsult hnow (fun _ => hrecord _) (hrecord _)

/-- A price is stored and published once its instrument is validated. -/
theorem only_recordPrice {bar : Bar} (hfind : allowed (.store (.findInstrument bar.symbol)))
    (hstore : allowed (.store (.appendPrice bar)))
    (hnext : allowed (.publish (.priceIngested bar.symbol bar.market))) :
    Attempt.Only allowed (recordPrice bar) := by
  refine Attempt.only_bind (only_validate hfind) fun _ => ?_
  exact Attempt.only_bind (Attempt.only_store hstore) fun _ => Attempt.only_publish hnext

section Stages

variable {symbol market : String} (hfind : allowed (.store (.findInstrument symbol)))
include hfind

/-- The stage of a new price drops what is cached. -/
theorem only_onPriceIngested (hdrop : allowed (.cache (.invalidate symbol)))
    (hnext : allowed (.publish (.indicatorRequested symbol market))) :
    Attempt.Only allowed (onPriceIngested symbol market) := by
  refine Attempt.only_bind (only_validate hfind) fun _ => ?_
  refine Attempt.only_bind (Attempt.only_cache hdrop) fun _ => ?_
  exact Attempt.only_bind (Attempt.only_publish hnext) fun _ => Attempt.only_pure _

/-- The stage of the indicators stores and caches a snapshot, or tells the metrics that there are
too few bars. -/
theorem only_onIndicatorRequested {config : Config}
    (hread : allowed (.store (.recentPrices symbol config.effectivePriceWindow)))
    (hshort : allowed (.record (.insufficientData 1)))
    (hstore : ∀ snapshot, allowed (.store (.appendSnapshot snapshot)))
    (hset : ∀ snapshot, allowed (.cache (.setSnapshot snapshot)))
    (hnext : ∀ snapshot, allowed (.publish (.decisionRequested symbol market snapshot))) :
    Attempt.Only allowed (onIndicatorRequested config symbol market) := by
  refine Attempt.only_bind (only_validate hfind) fun _ => ?_
  refine Attempt.only_bind (Attempt.only_store hread) fun bars => ?_
  cases config.lookbacks.compute symbol bars with
  | error e =>
      cases e with
      | insufficientData _ _ =>
          exact Attempt.only_bind (Attempt.only_record hshort) fun _ => Attempt.only_pure _
      | nonFinitePrice _ _ => exact Attempt.only_pure _
  | ok snapshot =>
      refine Attempt.only_bind (Attempt.only_store (hstore _)) fun _ => ?_
      refine Attempt.only_bind (Attempt.only_cache (hset _)) fun _ => ?_
      exact Attempt.only_bind (Attempt.only_publish (hnext _)) fun _ => Attempt.only_pure _

/-- The stage of a signal only validates. -/
theorem only_onSignalGenerated : Attempt.Only allowed (onSignalGenerated symbol market) :=
  Attempt.only_bind (only_validate hfind) fun _ => Attempt.only_pure _

end Stages

/-- Indicators are asked for by publishing. -/
theorem only_refreshActive (hread : allowed (.store .activeInstruments))
    (hpublish : ∀ event, allowed (.publish event)) : Attempt.Only allowed refreshActive := by
  have hrequests : ∀ instruments : List Instrument,
      Attempt.Only allowed (requestIndicators instruments) := by
    intro instruments
    induction instruments with
    | nil => exact Attempt.only_pure _
    | cons instrument rest ih =>
        exact Attempt.only_bind (Attempt.only_publish (hpublish _)) fun _ => ih
  refine Attempt.only_bind (Attempt.only_store hread) fun instruments => ?_
  exact Attempt.only_bind (hrequests instruments) fun _ => Attempt.only_pure _

/-- Dropping old history takes the store only. -/
theorem only_pruneHistory {config : Config} {now : Timestamp}
    (hprune : ∀ cutoff, allowed (.store (.prune cutoff))) :
    Attempt.Only allowed (pruneHistory config now) := by
  unfold pruneHistory
  split
  · exact Attempt.only_pure _
  · exact Attempt.only_bind (Attempt.only_store (hprune _)) fun _ => trivial

/-! ### Quiet parts -/

theorem quiet_validate (symbol market : String) :
    Attempt.Only Call.IsQuiet (validate symbol market) :=
  only_validate fun _ => by simp

theorem quiet_latestPrice (symbol : String) : Attempt.Only Call.IsQuiet (latestPrice symbol) :=
  only_latestPrice (fun _ => by simp) (fun _ => by simp) fun _ _ => by simp

theorem quiet_recentSignals (config : Config) (symbol : String) :
    Attempt.Only Call.IsQuiet (recentSignals config symbol) :=
  only_recentSignals (fun _ => by simp) (fun _ => by simp) fun _ _ => by simp

theorem quiet_decide (request : DecisionRequest) : (decide request).Only Call.IsQuiet :=
  only_decide (fun _ => by simp) (fun _ => by simp) fun _ _ => by simp

theorem quiet_pruneHistory (config : Config) (now : Timestamp) :
    Attempt.Only Call.IsQuiet (pruneHistory config now) :=
  only_pruneHistory fun _ _ => by simp

end Pipeline

/-! ### Calls that read -/

/-- Whether a query changes nothing in the store. -/
def Store.Query.isRead : Store.Query → Bool
  | .findInstrument _ | .activeInstruments | .recentPrices _ _ | .latestPrice _
  | .recentSignals _ _ => true
  | .addInstrument _ | .appendPrice _ | .appendSnapshot _ | .appendSignal _ | .prune _ => false

/-- Whether a query changes nothing in the cache. -/
def Cache.Query.isRead : Cache.Query → Bool
  | .price _ | .snapshot _ | .signals _ => true
  | .setPrice _ | .setSnapshot _ | .setSignals _ _ | .invalidate _ => false

/-- A call that reads, or tells the metrics. -/
def Call.IsRead : Call → Prop
  | .store query => query.isRead
  | .cache query => query.isRead
  | .record _ => True
  | .publish _ | .consult _ | .now => False

/-- Nothing is stored, cached, published or asked between two worlds. -/
structure World.Untouched (w w' : World) : Prop where
  store : w'.store = w.store
  cache : w'.cache = w.cache
  log : w'.log = w.log
  asked : w'.asked = w.asked

/-- A reading query leaves the store as it is. -/
theorem Store.ask_of_isRead {query : Store.Query} (h : query.isRead) (s : Store) :
    (s.ask query).2 = s := by
  cases query with
  | findInstrument | activeInstruments | recentPrices | latestPrice | recentSignals => rfl
  | addInstrument | appendPrice | appendSnapshot | appendSignal | prune => cases h

/-- A reading query leaves the cache as it is. -/
theorem Cache.ask_of_isRead {query : Cache.Query} (h : query.isRead) (c : Cache) (instant : Nat) :
    (c.ask instant query).2 = c := by
  cases query with
  | price | snapshot | signals => rfl
  | setPrice | setSnapshot | setSignals | invalidate => cases h

/-- A call that reads leaves store, cache, log and primary source alone. -/
theorem World.untouched_of_read (w : World) (call : Call) (h : call.IsRead) :
    w.Untouched (w.answer call).2 := by
  cases call with
  | store query =>
      simp only [answer, askStore]
      split
      · exact ⟨rfl, rfl, rfl, rfl⟩
      · exact ⟨Store.ask_of_isRead h _, rfl, rfl, rfl⟩
  | cache query =>
      simp only [answer, askCache]
      split
      · exact ⟨rfl, rfl, rfl, rfl⟩
      · exact ⟨rfl, Cache.ask_of_isRead h _ _, rfl, rfl⟩
  | record observation => exact ⟨rfl, rfl, rfl, rfl⟩
  | publish | consult | now => exact h.elim

/-- What only reads leaves store, cache, log and primary source alone. -/
theorem World.untouched_after {α : Type} {w : World} {p : Process α}
    (h : ∀ x ∈ w.trace p, x.call.IsRead) : w.Untouched (w.after p).2 := by
  let view : World → Store × Cache × List Event × List DecisionRequest :=
    fun w => (w.store, w.cache, w.log, w.asked)
  have hview : view (w.after p).2 = view w := by
    refine Process.view_run_of_calls World.answer view (fun w call hread => ?_) p w h
    have hcall := w.untouched_of_read call hread
    simp only [view, hcall.store, hcall.cache, hcall.log, hcall.asked]
  simp only [view, Prod.mk.injEq] at hview
  exact ⟨hview.1, hview.2.1, hview.2.2.1, hview.2.2.2⟩

theorem Pipeline.reads_validate (symbol market : String) :
    Attempt.Only Call.IsRead (validate symbol market) :=
  only_validate rfl

end MarketSignals
