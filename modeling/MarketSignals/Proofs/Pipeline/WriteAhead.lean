import Mathlib.Data.List.Perm.Subperm
import MarketSignals.Proofs.Pipeline.Calls
import MarketSignals.Proofs.Pipeline.Running

/-!
# Write before publish

An event that reports a price, a snapshot or a signal is published after the store has it. Each
operation writes a fact before it publishes the event that reports it, once for each event; this
holds of every beginning of its path, so it holds of every shuffle of such paths.

## Main results

* `Process.Covers`: the events of a path report no more than what was written on it, with the rules
  for the steps of a stage.
* `covers_operation`: every operation covers its events.
* `Reachable.covered`: so does a pipeline at work, at every moment.
* `published_after_written`: every published event reports what was written earlier in the run.
-/

namespace MarketSignals

/-- What an event may report and a query may write. -/
inductive Fact where
  /-- There is a price of a symbol on a market. -/
  | price (symbol market : String)
  /-- A snapshot was taken. -/
  | snapshot (snapshot : Snapshot)
  /-- A signal was given. -/
  | signal (signal : Signal)
deriving DecidableEq

/-- The fact that an event reports. -/
def Event.fact? : Event → Option Fact
  | .priceIngested symbol market => some (.price symbol market)
  | .indicatorRequested _ _ => none
  | .decisionRequested _ _ indicators => some (.snapshot indicators)
  | .signalGenerated _ _ signal => some (.signal signal)

/-- The fact that a query writes. -/
def Store.Query.fact? : Store.Query → Option Fact
  | .appendPrice bar => some (.price bar.symbol bar.market)
  | .appendSnapshot snapshot => some (.snapshot snapshot)
  | .appendSignal signal => some (.signal signal)
  | _ => none

/-- What an event carries belongs to its own instrument. -/
def Event.Coherent : Event → Prop
  | .decisionRequested symbol _ indicators => indicators.symbol = symbol
  | .signalGenerated _ market signal => signal.market = market
  | .priceIngested _ _ | .indicatorRequested _ _ => True

/-- What an event reports was written by one of some queries, for the event's own instrument. -/
def Event.Backed (queries : List Store.Query) : Event → Prop
  | .priceIngested symbol market =>
    ∃ bar, .appendPrice bar ∈ queries ∧ bar.symbol = symbol ∧ bar.market = market
  | .indicatorRequested _ _ => True
  | .decisionRequested symbol _ indicators =>
    indicators.symbol = symbol ∧ .appendSnapshot indicators ∈ queries
  | .signalGenerated _ market signal =>
    signal.market = market ∧ .appendSignal signal ∈ queries

theorem Store.Query.fact?_eq_price_iff {query : Store.Query} {symbol market : String} :
    query.fact? = some (.price symbol market) ↔
      ∃ bar, query = .appendPrice bar ∧ bar.symbol = symbol ∧ bar.market = market := by
  cases query <;> simp [fact?]

theorem Store.Query.fact?_eq_snapshot_iff {query : Store.Query} {snapshot : Snapshot} :
    query.fact? = some (.snapshot snapshot) ↔ query = .appendSnapshot snapshot := by
  cases query <;> simp [fact?]

theorem Store.Query.fact?_eq_signal_iff {query : Store.Query} {signal : Signal} :
    query.fact? = some (.signal signal) ↔ query = .appendSignal signal := by
  cases query <;> simp [fact?]

/-- A coherent event whose fact was written is backed. -/
theorem Event.Coherent.backed {event : Event} {queries : List Store.Query}
    (hcoherent : event.Coherent)
    (hwritten : ∀ fact, event.fact? = some fact → fact ∈ queries.filterMap Store.Query.fact?) :
    event.Backed queries := by
  cases event with
  | indicatorRequested => trivial
  | priceIngested symbol market =>
      obtain ⟨query, hquery, hfact⟩ := List.mem_filterMap.mp (hwritten _ rfl)
      obtain ⟨bar, rfl, hsymbol, hmarket⟩ := Store.Query.fact?_eq_price_iff.mp hfact
      exact ⟨bar, hquery, hsymbol, hmarket⟩
  | decisionRequested symbol market indicators =>
      obtain ⟨query, hquery, hfact⟩ := List.mem_filterMap.mp (hwritten _ rfl)
      obtain rfl := Store.Query.fact?_eq_snapshot_iff.mp hfact
      exact ⟨hcoherent, hquery⟩
  | signalGenerated symbol market signal =>
      obtain ⟨query, hquery, hfact⟩ := List.mem_filterMap.mp (hwritten _ rfl)
      obtain rfl := Store.Query.fact?_eq_signal_iff.mp hfact
      exact ⟨hcoherent, hquery⟩

/-- The facts that the published events report. -/
def reported (history : List Exchange) : List Fact :=
  (published history).filterMap Event.fact?

/-- The facts that were written to the store. -/
def written (history : List Exchange) : List Fact :=
  (stored history).filterMap Store.Query.fact?

@[simp] theorem reported_append (t u : List Exchange) :
    reported (t ++ u) = reported t ++ reported u := by
  simp [reported]

@[simp] theorem written_append (t u : List Exchange) :
    written (t ++ u) = written t ++ written u := by
  simp [written]

/-! ### Covered paths -/

namespace Process

variable {α β : Type} {credit : List Fact}

/-- On every path, complete or not, the events report no more than what was written on it, besides
facts that were written before. -/
def Covers (credit : List Fact) (p : Process α) : Prop :=
  ∀ t q, Path p t q → (reported t).Subperm (credit ++ written t) ∧ ∀ e ∈ published t, e.Coherent

/-- What is quiet publishes nothing that would have to be covered. -/
theorem covers_of_quiet {p : Process α} (hp : p.Only Call.IsQuiet) : p.Covers credit := by
  intro t q h
  have hnone := published_eq_nil (hp.calls h)
  simp [reported, hnone, List.nil_subperm]

/-- What is quiet may come before. -/
theorem Covers.bind_quiet {p : Process α} {f : α → Process β} (hp : p.Only Call.IsQuiet)
    (hf : ∀ a, (f a).Covers credit) : (p >>= f).Covers credit := by
  intro t q h
  rcases path_bind h with ⟨p', hp', -⟩ | ⟨t₁, t₂, a, rfl, hp', hrest⟩
  · exact covers_of_quiet hp t p' hp'
  · obtain ⟨hcovered, hcoherent⟩ := hf a t₂ q hrest
    have hnone := published_eq_nil (hp.calls hp')
    simp only [reported_append, written_append, published_append, hnone, List.nil_append]
    refine ⟨?_, hcoherent⟩
    rw [reported, hnone]
    refine hcovered.trans (List.Sublist.subperm ?_)
    exact (List.sublist_append_right _ _).append_left credit

/-- What is quiet may come after. -/
theorem Covers.then_quiet {p : Process α} {f : α → Process β} (hp : p.Covers credit)
    (hf : ∀ a, (f a).Only Call.IsQuiet) : (p >>= f).Covers credit := by
  intro t q h
  rcases path_bind h with ⟨p', hp', -⟩ | ⟨t₁, t₂, a, rfl, hp', hrest⟩
  · exact hp t p' hp'
  · obtain ⟨hcovered, hcoherent⟩ := hp t₁ _ hp'
    have hnone := published_eq_nil ((hf a).calls hrest)
    simp only [reported_append, written_append, published_append, hnone, List.append_nil]
    refine ⟨?_, hcoherent⟩
    rw [reported, reported, hnone, List.filterMap_nil, List.append_nil]
    refine hcovered.trans (List.Sublist.subperm ?_)
    exact (List.sublist_append_left _ _).append_left credit

/-- A call is covered where what its answer publishes, with what may be reported from there on, is
no more than what could be reported before and what its answer writes. -/
theorem covers_call {c : Call} {next : c.Answer → Process α}
    (h : ∀ answer, ∃ credit', (next answer).Covers credit' ∧
      (reported [⟨c, answer⟩] ++ credit').Subperm (credit ++ written [⟨c, answer⟩]) ∧
      ∀ e ∈ published [⟨c, answer⟩], e.Coherent) :
    (Process.call c next).Covers credit := by
  intro t q hpath
  cases hpath with
  | refl => simp [reported, published, List.nil_subperm]
  | @step _ _ answer u _ hrest =>
      obtain ⟨credit', hnext, hbalance, hcoherent⟩ := h answer
      obtain ⟨hcovered, hlater⟩ := hnext u q hrest
      rw [← List.singleton_append, reported_append, written_append, published_append]
      constructor
      · have hfirst := (List.subperm_append_left (reported [⟨c, answer⟩])).mpr hcovered
        have hrest := (List.subperm_append_right (written u)).mpr hbalance
        simp only [List.append_assoc] at hfirst hrest
        exact hfirst.trans hrest
      · intro e he
        rcases List.mem_append.mp he with hnow | hthen
        · exact hcoherent e hnow
        · exact hlater e hthen

end Process

namespace Attempt

variable {α β : Type} {credit : List Fact}

/-- An attempt covers its events. -/
abbrev Covers (credit : List Fact) (x : Attempt α) : Prop :=
  Process.Covers credit x.run

theorem covers_bind {x : Attempt α} {f : α → Attempt β} (hx : Only Call.IsQuiet x)
    (hf : ∀ a, Covers credit (f a)) : Covers credit (x >>= f) := by
  refine Process.Covers.bind_quiet hx fun r => ?_
  cases r with
  | ok a => exact hf a
  | error e => exact Process.covers_of_quiet trivial

theorem covers_pure (a : α) : Covers credit (pure a : Attempt α) :=
  Process.covers_of_quiet trivial

theorem covers_refuse (cause : Malformed) : Covers credit (refuse cause : Attempt α) :=
  Process.covers_of_quiet trivial

/-- What the store has written, the events that follow may report. -/
theorem covers_store {query : Store.Query} {f : query.Answer → Attempt β}
    (hf : ∀ a, Covers (query.fact?.toList ++ credit) (f a)) :
    Covers credit (store query >>= f) := by
  refine Process.covers_call fun answer => ?_
  cases answer with
  | error e => exact ⟨[], Process.covers_of_quiet trivial, List.nil_subperm, by simp⟩
  | ok a =>
      refine ⟨_, hf a, ?_, by simp⟩
      have hwritten : written [⟨.store query, .ok a⟩] = query.fact?.toList := by
        cases hfact : query.fact? <;> simp [written, hfact]
      rw [hwritten, reported, published_store, List.filterMap_nil, List.nil_append]
      exact List.perm_append_comm.subperm

/-- What is published must be coherent and is taken from what may be reported. -/
theorem covers_publish {event : Event} {f : Unit → Attempt β} (hcoherent : event.Coherent)
    (hf : ∀ a, Covers credit (f a)) :
    Covers (event.fact?.toList ++ credit) (publish event >>= f) := by
  refine Process.covers_call fun answer => ?_
  cases answer with
  | error e => exact ⟨[], Process.covers_of_quiet trivial, List.nil_subperm, by simp⟩
  | ok a =>
      refine ⟨_, hf a, ?_, by simpa using hcoherent⟩
      have hreported : reported [⟨.publish event, .ok a⟩] = event.fact?.toList := by
        cases hfact : event.fact? <;> simp [reported, hfact]
      rw [hreported, written, stored_publish, List.filterMap_nil, List.append_nil]

end Attempt

/-! ### Operations -/

namespace Pipeline

variable {config : Config}

theorem covers_recordPrice (bar : Bar) : Attempt.Covers [] (recordPrice bar) := by
  refine Attempt.covers_bind (quiet_validate _ _) fun _ => ?_
  refine Attempt.covers_store fun _ => ?_
  rw [← bind_pure (Attempt.publish _)]
  exact Attempt.covers_publish (by trivial) fun _ => Attempt.covers_pure ()

theorem covers_onPriceIngested (symbol market : String) :
    Attempt.Covers [] (onPriceIngested symbol market) := by
  refine Attempt.covers_bind (quiet_validate _ _) fun _ => ?_
  refine Attempt.covers_bind (Attempt.quiet_cache _) fun _ => ?_
  exact Attempt.covers_publish (by trivial) fun _ => Attempt.covers_pure _

/-- A snapshot is of the symbol it was computed for. -/
theorem symbol_of_compute {lookbacks : Lookbacks} {symbol : String} {bars : List Bar}
    {snapshot : Snapshot} (h : lookbacks.compute symbol bars = .ok snapshot) :
    snapshot.symbol = symbol := by
  unfold Lookbacks.compute at h
  split at h
  · cases h
  · split at h
    · cases h
    · dsimp only at h
      split at h
      · cases h; rfl
      · cases h

theorem covers_onIndicatorRequested (symbol market : String) :
    Attempt.Covers [] (onIndicatorRequested config symbol market) := by
  refine Attempt.covers_bind (quiet_validate _ _) fun _ => ?_
  refine Attempt.covers_bind (Attempt.quiet_store _) fun bars => ?_
  cases hcompute : config.lookbacks.compute symbol bars with
  | error e =>
      cases e with
      | insufficientData _ _ =>
          exact Attempt.covers_bind (Attempt.quiet_record _) fun _ => Attempt.covers_pure _
      | nonFinitePrice _ _ => exact Attempt.covers_pure _
  | ok snapshot =>
      refine Attempt.covers_store fun _ => ?_
      refine Attempt.covers_bind (Attempt.quiet_cache _) fun _ => ?_
      exact Attempt.covers_publish (symbol_of_compute hcompute) fun _ => Attempt.covers_pure _

theorem covers_onDecisionRequested (symbol market : String) (indicators : Snapshot) :
    Attempt.Covers [] (onDecisionRequested config symbol market indicators) := by
  refine Attempt.covers_bind (quiet_validate _ _) fun _ => ?_
  split
  · refine Attempt.covers_bind (quiet_latestPrice _) fun price => ?_
    cases price with
    | none => exact Attempt.covers_refuse _
    | some price =>
        refine Attempt.covers_bind (Attempt.only_lift (quiet_decide _)) fun decision => ?_
        refine Attempt.covers_store fun _ => ?_
        refine Attempt.covers_bind (Attempt.quiet_store _) fun recent => ?_
        refine Attempt.covers_bind (Attempt.quiet_cache _) fun _ => ?_
        refine Attempt.covers_bind (Attempt.quiet_record _) fun _ => ?_
        exact Attempt.covers_publish rfl fun _ => Attempt.covers_pure _
  · exact Attempt.covers_refuse _

theorem covers_handle (event : Event) : Attempt.Covers [] (handle config event) := by
  refine Attempt.covers_bind (Attempt.quiet_record _) fun _ => ?_
  unfold stageOf
  split
  · exact covers_onPriceIngested _ _
  · exact covers_onIndicatorRequested _ _
  · exact covers_onDecisionRequested _ _ _
  · exact Attempt.covers_bind (quiet_validate _ _) fun _ => Attempt.covers_pure _

theorem covers_deliver (event : Event) : (deliver config event).Covers [] := by
  refine (covers_handle event).then_quiet fun result => ?_
  cases result with
  | ok _ => trivial
  | error e =>
      dsimp only
      split
      · exact (Process.only_perform fun _ => by simp).bind fun _ => trivial
      · exact (Process.only_perform fun _ => by simp).bind fun _ => trivial

theorem covers_requestIndicators (instruments : List Instrument) :
    Attempt.Covers [] (requestIndicators instruments) := by
  induction instruments with
  | nil => exact Attempt.covers_pure ()
  | cons instrument rest ih => exact Attempt.covers_publish (by trivial) fun _ => ih

theorem covers_refreshActive : Attempt.Covers [] refreshActive := by
  refine Attempt.covers_bind (Attempt.quiet_store _) fun instruments => ?_
  refine (covers_requestIndicators instruments).then_quiet fun result => ?_
  cases result with
  | ok _ => trivial
  | error e => trivial

/-- Every operation covers its events. -/
theorem covers_operation (operation : Operation) : (operation.process config).Covers [] := by
  cases operation with
  | record bar => exact (covers_recordPrice bar).then_quiet fun _ => trivial
  | handle event => exact (covers_handle event).then_quiet fun _ => trivial
  | deliver event => exact (covers_deliver event).then_quiet fun _ => trivial
  | refresh => exact covers_refreshActive.then_quiet fun _ => trivial
  | latestPrice symbol =>
      exact Process.covers_of_quiet ((quiet_latestPrice symbol).bind fun _ => trivial)
  | recentSignals symbol =>
      exact Process.covers_of_quiet ((quiet_recentSignals config symbol).bind fun _ => trivial)
  | prune now =>
      exact Process.covers_of_quiet ((quiet_pruneHistory config now).bind fun _ => trivial)

/-! ### Runs -/

namespace Running

variable {w : World} {r : Running}

/-- What threads cover one by one, they cover together. -/
theorem covers_threads {threads : List Thread}
    (h : ∀ thread ∈ threads, (reported thread.past).Subperm (written thread.past) ∧
      ∀ e ∈ published thread.past, e.Coherent) :
    (reported (threads.flatMap Thread.past)).Subperm (written (threads.flatMap Thread.past)) ∧
      ∀ e ∈ published (threads.flatMap Thread.past), e.Coherent := by
  induction threads with
  | nil => simp [reported, published, List.nil_subperm]
  | cons thread rest ih =>
      obtain ⟨hfirst, hcoherent⟩ := h thread (by simp)
      obtain ⟨hrest, hlater⟩ := ih fun other hother => h other (by simp [hother])
      rw [List.flatMap_cons, reported_append, written_append, published_append]
      refine ⟨hfirst.append hrest, fun e he => ?_⟩
      rcases List.mem_append.mp he with hnow | hthen
      · exact hcoherent e hnow
      · exact hlater e hthen

/-- At every moment the events of a run report no more than what was written in it. -/
theorem Reachable.covered (h : Reachable config w r) :
    (reported r.history).Subperm (written r.history) ∧
      ∀ e ∈ published r.history, e.Coherent := by
  have hsound := h.sound
  obtain ⟨hbalance, hcoherent⟩ := covers_threads fun thread hthread => by
    obtain ⟨operation, hpath⟩ := hsound.paths thread hthread
    exact covers_operation operation _ _ hpath
  have hpublished := hsound.shuffle.filterMap Exchange.published?
  have hreported := hpublished.filterMap Event.fact?
  have hwritten := (hsound.shuffle.filterMap Exchange.stored?).filterMap Store.Query.fact?
  exact ⟨hreported.subperm.trans (hbalance.trans hwritten.symm.subperm),
    fun e he => hcoherent e (hpublished.mem_iff.mp he)⟩

end Running

/-- An event that was published is backed by what was written before. -/
theorem Running.Reachable.backed {w : World} {r : Running} (h : Running.Reachable config w r)
    {before after : List Exchange} {x : Exchange} {event : Event}
    (hhistory : r.history = before ++ x :: after) (hx : x.published? = some event) :
    event.Backed (stored before) := by
  have hprefix : before ++ [x] <+: r.history := ⟨after, by simp [hhistory]⟩
  obtain ⟨earlier, hearlier, hbefore⟩ := h.past_of_history hprefix
  obtain ⟨hcovered, hcoherent⟩ := hearlier.covered
  rw [hbefore] at hcovered hcoherent
  have hpublished : published (before ++ [x]) = published before ++ [event] := by
    simp [published, hx]
  -- The call that publishes is no query, so what it reports was written before it.
  have hwritten : written (before ++ [x]) = written before := by
    obtain ⟨call, answer⟩ := x
    cases call with
    | publish other => simp [written]
    | _ => cases hx
  refine (hcoherent event (by simp [hpublished])).backed fun fact hfact => ?_
  have hreported : fact ∈ reported (before ++ [x]) :=
    List.mem_filterMap.mpr ⟨event, by simp [hpublished], hfact⟩
  rw [hwritten] at hcovered
  exact hcovered.subset hreported

/-- **What is published was written before.** However operations, failures and redeliveries mix,
an event in the log reports a price, a snapshot or a signal that the store was given earlier in the
run, for the event's own instrument; no fact is reported more often than it was written; and the
signals that were reported are in the store to stay. -/
theorem published_after_written {w : World} {r : Running} (h : Running.Reachable config w r) :
    r.world.log = w.log ++ published r.history ∧
    r.world.store = w.store.carryOut (stored r.history) ∧
    (∀ before x after event, r.history = before ++ x :: after → x.published? = some event →
      event.Backed (stored before)) ∧
    (∀ symbol market signal, .signalGenerated symbol market signal ∈ published r.history →
      signal ∈ r.world.store.signals ∧ signal.market = market) ∧
    ∀ fact, ((published r.history).filterMap Event.fact?).count fact ≤
      ((stored r.history).filterMap Store.Query.fact?).count fact := by
  have hsound := h.sound
  obtain ⟨hcovered, hcoherent⟩ := h.covered
  refine ⟨hsound.log, hsound.store, fun before x after event hhistory hx => h.backed hhistory hx,
    fun symbol market signal hsignal => ⟨?_, hcoherent _ hsignal⟩, fun fact => hcovered.count_le fact⟩
  have hwritten : .signal signal ∈ written r.history :=
    hcovered.subset (List.mem_filterMap.mpr ⟨_, hsignal, rfl⟩)
  obtain ⟨query, hquery, hfact⟩ := List.mem_filterMap.mp hwritten
  obtain rfl := Store.Query.fact?_eq_signal_iff.mp hfact
  rw [hsound.store, Store.signals_carryOut]
  exact List.mem_append_right _ (List.mem_filterMap.mpr ⟨_, hquery, rfl⟩)

/-- A world with one instrument, whose broker fails once. -/
def oneInstrument : World where
  store := Store.addInstrument {} ⟨"AAPL", "NASDAQ", "", true⟩
  faults := { publish := [some "full"] }
  clock := { readings := fun _ => .epoch }

/-- A bar of the one instrument. -/
def oneBar : Bar :=
  ⟨"AAPL", "NASDAQ", 10, 11, 9, 10, 1000, 0, .epoch⟩

/-- A price that is recorded again after the broker failed is reported once and was written before,
and the event is backed. -/
theorem published_after_written_retry : ∃ r,
    Running.Reachable {} oneInstrument r ∧
      published r.history = [.priceIngested "AAPL" "NASDAQ"] ∧
      (stored r.history).filterMap Store.Query.fact? =
        [.price "AAPL" "NASDAQ", .price "AAPL" "NASDAQ"] ∧
      ∀ fact, ((published r.history).filterMap Event.fact?).count fact ≤
        ((stored r.history).filterMap Store.Query.fact?).count fact := by
  have hstart : Running.Reachable {} oneInstrument (.start oneInstrument) := .start
  have h := (hstart.perform (.record oneBar)).perform (.record oneBar)
  exact ⟨_, h, by decide +kernel, by decide +kernel, (published_after_written h).2.2.2.2⟩

end Pipeline

end MarketSignals
