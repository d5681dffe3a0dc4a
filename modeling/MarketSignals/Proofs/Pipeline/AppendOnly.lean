import Mathlib.Logic.Relation
import MarketSignals.Proofs.Pipeline.Calls
import MarketSignals.Proofs.Pipeline.Running
import MarketSignals.Proofs.Store.FirstWrite
import MarketSignals.Proofs.Store.Retention

/-!
# History only grows

Nothing that a pipeline at work has stored is ever altered. However operations, failures and
redeliveries mix, signals stay for good, a bar stays the only one of its time, and bars and
snapshots go only by a prune with a later cutoff. One run of a stage adds at most one snapshot or
one signal, by the stage.

## Main results

* `Process.WritesOnce`: every path writes at most once, with the rules for the steps of a stage.
* `handle_writesOnce`: the one write of a stage, by its event.
* `Running.store_of_later`: between two moments the store carries out what the history adds.
* `history_append_only`: what is stored at one moment is stored at every later one.
-/

namespace MarketSignals

/-! ### Writes -/

/-- The queries of a history that the store carried out and that may have changed it. -/
def writes (history : List Exchange) : List Store.Query :=
  (stored history).filter fun query => !query.isRead

@[simp] theorem writes_append (t u : List Exchange) : writes (t ++ u) = writes t ++ writes u := by
  simp [writes]

/-- Queries that read do not matter. -/
theorem Store.carryOut_filter_isRead (s : Store) (queries : List Store.Query) :
    s.carryOut (queries.filter fun query => !query.isRead) = s.carryOut queries := by
  induction queries generalizing s with
  | nil => rfl
  | cons query rest ih =>
      cases hread : query.isRead with
      | true => rw [List.filter_cons_of_neg (by simp [hread]), ih, carryOut_cons,
          Store.ask_of_isRead hread]
      | false => rw [List.filter_cons_of_pos (by simp [hread]), carryOut_cons, carryOut_cons, ih]

/-- A call that does not write to the store. -/
def Call.KeepsStore : Call → Prop
  | .store query => query.isRead
  | _ => True

/-- Where no call writes to the store, nothing is written. -/
theorem writes_eq_nil {history : List Exchange} (h : ∀ x ∈ history, x.call.KeepsStore) :
    writes history = [] := by
  refine List.filter_eq_nil_iff.mpr fun query hquery => ?_
  obtain ⟨x, hx, hstored⟩ := List.mem_filterMap.mp hquery
  have hkeeps := h x hx
  unfold Exchange.stored? at hstored
  split at hstored
  · cases hstored
    simpa [Call.KeepsStore] using hkeeps
  · cases hstored

/-- Every path writes at most once, and then a query of some kind. -/
def Process.WritesOnce {α : Type} (fits : Store.Query → Prop) (p : Process α) : Prop :=
  ∀ t q, Path p t q → writes t = [] ∨ ∃ query, writes t = [query] ∧ fits query

theorem Process.writesOnce_of_keeps {α : Type} {fits : Store.Query → Prop} {p : Process α}
    (hp : p.Only Call.KeepsStore) : p.WritesOnce fits :=
  fun _ _ h => .inl (writes_eq_nil (hp.calls h))

namespace Attempt

variable {α β : Type} {fits : Store.Query → Prop}

/-- Every path of an attempt writes at most once. -/
abbrev WritesOnce (fits : Store.Query → Prop) (x : Attempt α) : Prop :=
  Process.WritesOnce fits x.run

theorem writesOnce_pure (a : α) : WritesOnce fits (pure a : Attempt α) :=
  Process.writesOnce_of_keeps trivial

theorem writesOnce_refuse (cause : Malformed) : WritesOnce fits (refuse cause : Attempt α) :=
  Process.writesOnce_of_keeps trivial

/-- What does not write may come before. -/
theorem writesOnce_bind {x : Attempt α} {f : α → Attempt β} (hx : Only Call.KeepsStore x)
    (hf : ∀ a, WritesOnce fits (f a)) : WritesOnce fits (x >>= f) := by
  intro t q h
  rcases path_bind h with ⟨p, hp, -⟩ | ⟨t₁, t₂, a, rfl, hp, hrest⟩
  · exact .inl (writes_eq_nil (hx.calls hp))
  · rw [writes_append, writes_eq_nil (hx.calls hp), List.nil_append]
    exact hf a t₂ q hrest

/-- The one write; what follows does not write. -/
theorem writesOnce_store {query : Store.Query} {f : query.Answer → Attempt β} (hfits : fits query)
    (hf : ∀ a, Only Call.KeepsStore (f a)) : WritesOnce fits (store query >>= f) := by
  intro t q h
  cases h with
  | refl => exact .inl rfl
  | @step _ _ answer u _ hrest =>
      cases answer with
      | error e =>
          obtain ⟨rfl, -⟩ := hrest.of_done
          exact .inl rfl
      | ok a =>
          rw [← List.singleton_append, writes_append, writes_eq_nil ((hf a).calls hrest),
            List.append_nil]
          cases hread : query.isRead with
          | true => exact .inl (by simp [writes, hread])
          | false => exact .inr ⟨query, by simp [writes, hread], hfits⟩

theorem keeps_cache (query : Cache.Query) : Only Call.KeepsStore (cache query) :=
  only_cache trivial

theorem keeps_record (observation : Observation) : Only Call.KeepsStore (record observation) :=
  only_record trivial

theorem keeps_publish (event : Event) : Only Call.KeepsStore (publish event) :=
  only_publish trivial

end Attempt

/-- The one query by which the stage of an event may change the store. -/
def Event.MayWrite (event : Event) (query : Store.Query) : Prop :=
  (event.stage = .indicatorRequested ∧ ∃ snapshot, query = .appendSnapshot snapshot) ∨
    event.stage = .decisionRequested ∧ ∃ signal, query = .appendSignal signal

namespace Pipeline

variable {config : Config}

theorem keeps_validate (symbol market : String) :
    Attempt.Only Call.KeepsStore (validate symbol market) :=
  only_validate rfl

theorem onIndicatorRequested_writesOnce (symbol market : String) :
    Attempt.WritesOnce (Event.MayWrite (.indicatorRequested symbol market))
      (onIndicatorRequested config symbol market) := by
  refine Attempt.writesOnce_bind (keeps_validate _ _) fun _ => ?_
  refine Attempt.writesOnce_bind (Attempt.only_store rfl) fun bars => ?_
  cases config.lookbacks.compute symbol bars with
  | error e =>
      cases e with
      | insufficientData required available =>
          exact Attempt.writesOnce_bind (Attempt.keeps_record _) fun _ =>
            Attempt.writesOnce_pure _
      | nonFinitePrice name time => exact Attempt.writesOnce_pure _
  | ok snapshot =>
      refine Attempt.writesOnce_store (.inl ⟨rfl, snapshot, rfl⟩) fun _ => ?_
      refine Attempt.only_bind (Attempt.keeps_cache _) fun _ => ?_
      exact Attempt.only_bind (Attempt.keeps_publish _) fun _ => Attempt.only_pure _

theorem onDecisionRequested_writesOnce (symbol market : String) (indicators : Snapshot) :
    Attempt.WritesOnce (Event.MayWrite (.decisionRequested symbol market indicators))
      (onDecisionRequested config symbol market indicators) := by
  refine Attempt.writesOnce_bind (keeps_validate _ _) fun _ => ?_
  split
  · have hprice : Attempt.Only Call.KeepsStore (latestPrice symbol) :=
      only_latestPrice trivial rfl fun _ => trivial
    refine Attempt.writesOnce_bind hprice fun price => ?_
    cases price with
    | none => exact Attempt.writesOnce_refuse _
    | some price =>
        have hdecide : (decide (request config price indicators)).Only Call.KeepsStore :=
          only_decide trivial trivial fun _ => trivial
        refine Attempt.writesOnce_bind (Attempt.only_lift hdecide) fun decision => ?_
        refine Attempt.writesOnce_store (.inr ⟨rfl, _, rfl⟩) fun _ => ?_
        refine Attempt.only_bind (Attempt.only_store rfl) fun recent => ?_
        refine Attempt.only_bind (Attempt.keeps_cache _) fun _ => ?_
        refine Attempt.only_bind (Attempt.keeps_record _) fun _ => ?_
        exact Attempt.only_bind (Attempt.keeps_publish _) fun _ => Attempt.only_pure _
  · exact Attempt.writesOnce_refuse _

/-- A stage writes at most once: the snapshot it took or the signal it gave. -/
theorem handle_writesOnce (event : Event) :
    Attempt.WritesOnce event.MayWrite (handle config event) := by
  refine Attempt.writesOnce_bind (Attempt.keeps_record _) fun _ => ?_
  unfold stageOf
  split
  · refine Attempt.writesOnce_bind (keeps_validate _ _) fun _ => ?_
    refine Attempt.writesOnce_bind (Attempt.keeps_cache _) fun _ => ?_
    exact Attempt.writesOnce_bind (Attempt.keeps_publish _) fun _ => Attempt.writesOnce_pure _
  · exact onIndicatorRequested_writesOnce _ _
  · exact onDecisionRequested_writesOnce _ _ _
  · exact Attempt.writesOnce_bind (keeps_validate _ _) fun _ => Attempt.writesOnce_pure _

/-- What a process writes that runs alone is all that it does to the store. -/
theorem store_after_writes {α : Type} (w : World) (p : Process α) :
    (w.after p).2.store = w.store.carryOut (writes (w.trace p)) := by
  rw [World.store_after, writes, Store.carryOut_filter_isRead]

/-! ### Moments of a run -/

namespace Running

variable {w : World} {r r' : Running}

/-- Between two moments the store carries out what the history adds. -/
theorem store_of_later (h : Relation.ReflTransGen (Step config) r r') : ∃ between,
    r'.history = r.history ++ between ∧
      r'.world.store = r.world.store.carryOut (stored between) := by
  induction h with
  | refl => exact ⟨[], (List.append_nil _).symm, rfl⟩
  | tail _ hstep ih =>
      obtain ⟨between, hhistory, hstore⟩ := ih
      cases hstep with
      | begin | disturb => exact ⟨between, hhistory, hstore⟩
      | proceed v before after past history call next =>
          refine ⟨between ++ [⟨call, (v.answer call).1⟩], ?_, ?_⟩
          · rw [← List.append_assoc, ← hhistory]
          · rw [World.store_answer, stored_append, Store.carryOut_append, ← hstore]

/-- A run leads from its start to every moment of it. -/
theorem Reachable.later (h : Reachable config w r) :
    Relation.ReflTransGen (Step config) (.start w) r := by
  induction h with
  | start => exact .refl
  | next _ hstep ih => exact ih.tail hstep

end Running

/-- **History only grows.** In a run over a store that started empty, from any moment to any later
one: the signals of a symbol are only continued at the end; a bar is still in its series, and the
only one of its time, unless a prune with a later cutoff was carried out; the log of snapshots is
what such prunes left of it, in its order, and what was added at the end. One run of a stage writes
at most once, wherever it stands and whatever fails: a snapshot where indicators were asked for, a
signal where a decision was. -/
theorem history_append_only {config : Config} {w : World} {queries : List Store.Query}
    (hw : w.store = ({} : Store).carryOut queries) {r r' : Running}
    (h : Running.Reachable config w r)
    (hlater : Relation.ReflTransGen (Running.Step config) r r') :
    (∃ between, r'.history = r.history ++ between ∧
      (∀ symbol, r.world.store.signalsOf symbol <+: r'.world.store.signalsOf symbol) ∧
      (∀ symbol, ∀ bar ∈ r.world.store.bars symbol,
        (bar ∈ r'.world.store.bars symbol ∧
            ∀ b ∈ r'.world.store.bars symbol, b.time = bar.time → b = bar) ∨
          ∃ cutoff, .prune cutoff ∈ stored between ∧ bar.time < cutoff) ∧
      ∃ added, r'.world.store.snapshots =
        (r.world.store.snapshots.filter fun snapshot =>
          Store.spared (stored between) snapshot.computedAt) ++ added) ∧
    (∀ event t q, Process.Path (handle config event).run t q →
      writes t = [] ∨ ∃ query, writes t = [query] ∧ event.MayWrite query) ∧
    ∀ (event : Event) (v : World), (v.after (handle config event).run).2.store = v.store ∨
      ∃ query, event.MayWrite query ∧
        (v.after (handle config event).run).2.store = (v.store.ask query).2 := by
  obtain ⟨between, hhistory, hstore⟩ := Running.store_of_later hlater
  refine ⟨⟨between, hhistory, fun symbol => ?_, fun symbol bar hbar => ?_, ?_⟩,
    handle_writesOnce, fun event v => ?_⟩
  · rw [hstore]
    exact Store.signalsOf_prefix _ _ _
  · cases hspared : Store.spared (stored between) bar.time with
    | false => exact .inr (Store.spared_eq_false_iff.mp hspared)
    | true =>
        have hkept : bar ∈ r'.world.store.bars symbol := by
          rw [hstore]
          exact (Store.bars_sublist _ _ symbol).subset (List.mem_filter.mpr ⟨hbar, hspared⟩)
        -- The series is in the strict order of time, since the store started empty.
        have hlists := PriceMap.lists_carryOut (queries ++ stored r'.history) symbol
        have hwhole : ({} : Store).carryOut (queries ++ stored r'.history) = r'.world.store := by
          rw [hstore, h.sound.store, hw, hhistory, stored_append, Store.carryOut_append,
            Store.carryOut_append]
        rw [hwhole] at hlists
        refine .inl ⟨hkept, fun b hb htime => ?_⟩
        have hb' := hlists.holds_iff_mem.mpr hb
        rw [htime, hlists.holds_iff_mem.mpr hkept] at hb'
        exact (Option.some.inj hb').symm
  · obtain ⟨added, hadded, -⟩ := Store.snapshots_carryOut r.world.store (stored between)
    exact ⟨added, by rw [hstore, hadded]⟩
  · rw [store_after_writes]
    rcases handle_writesOnce event _ _ (v.path_after _) with hnone | ⟨query, hone, hmay⟩
    · exact .inl (by rw [hnone, Store.carryOut_nil])
    · exact .inr ⟨query, hmay, by rw [hone, Store.carryOut_cons, Store.carryOut_nil]⟩

/-- The first bar of an instrument. -/
def firstBar : Bar :=
  ⟨"AAPL", "NASDAQ", 10, 11, 9, 10, 1000, 0, .epoch⟩

/-- A world with one instrument and its first bar. -/
def withFirstBar : World where
  store := ({} : Store).carryOut
    [.addInstrument ⟨"AAPL", "NASDAQ", "", true⟩, .appendPrice firstBar]
  clock := { readings := fun _ => .epoch }

/-- Another bar of the same time. -/
def otherBar : Bar :=
  { firstBar with close := 11 }

/-- Another bar of the same time is recorded, and the first one stays the only one. -/
theorem history_append_only_rewritten : ∃ r,
    Relation.ReflTransGen (Running.Step {}) (.start withFirstBar) r ∧
      stored r.history = [.findInstrument "AAPL", .appendPrice otherBar] ∧
      firstBar ∈ r.world.store.bars "AAPL" ∧
      (∀ b ∈ r.world.store.bars "AAPL", b.time = firstBar.time → b = firstBar) ∧
      (writes (withFirstBar.trace (handle {} (.priceIngested "AAPL" "NASDAQ")).run) = [] ∨
        ∃ query, writes (withFirstBar.trace (handle {} (.priceIngested "AAPL" "NASDAQ")).run) =
          [query] ∧ Event.MayWrite (.priceIngested "AAPL" "NASDAQ") query) := by
  have hstart : Running.Reachable {} withFirstBar (.start withFirstBar) := .start
  have hlater := (hstart.perform (.record otherBar)).later
  obtain ⟨⟨between, hbetween, -, hbars, -⟩, hwrites, -⟩ := history_append_only rfl hstart hlater
  have hstored : stored ((Running.start withFirstBar).history ++
      withFirstBar.trace ((Operation.record otherBar).process {})) =
        [.findInstrument "AAPL", .appendPrice otherBar] := by
    rfl
  refine ⟨_, hlater, hstored, ?_⟩
  rcases hbars "AAPL" firstBar (by decide +kernel) with ⟨hkept, honly⟩ | ⟨cutoff, hcutoff, -⟩
  · exact ⟨hkept, honly, hwrites _ _ _ (withFirstBar.path_after _)⟩
  · obtain rfl : _ = between := hbetween
    have hprune : .prune cutoff ∈ [.findInstrument "AAPL", Store.Query.appendPrice otherBar] := by
      rw [← hstored]
      exact hcutoff
    simp at hprune

end Pipeline

end MarketSignals
