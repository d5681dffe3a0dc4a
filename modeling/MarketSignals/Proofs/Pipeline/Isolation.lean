import Mathlib.Control.Monad.Basic
import Mathlib.Data.List.Forall2
import MarketSignals.Pipeline.Delivery
import MarketSignals.Proofs.Cache.Kept
import MarketSignals.Proofs.Pipeline.Slice
import MarketSignals.Proofs.Store.FirstWrite

/-!
# Isolation of instruments

Handling an event looks at and changes the data of one symbol only, although the signals and the
snapshots of all symbols are kept in common lists and a signal goes to the symbol its decision
names. Events of different symbols may therefore change places.

All symbols share the clock. A decision that takes its time from the clock may get another time when
events change places, and with it its signal. Two runs are compared up to such times. The window of
recent signals that is cached depends on them more than that: which signals are the newest is told
by their times, so the windows of two runs are compared only where the times of both put the signals
in one order.

## Main results

* `DecisionSource.Steady`: sources whose answer depends on the request alone.
* `Slice.Alike`: two slices that differ in times from the clock only.
* `Slice.handle_alike`: what a stage comes to depends on the decisions only up to such times.
* `instruments_isolated`: a stage leaves all other symbols alone, depends on its own symbol alone,
  and events of different symbols may change places.
* `swap_changes_newest`: a signal between two readings of the clock, and two windows that differ.
-/

namespace MarketSignals

/-! ### Times from the clock -/

/-- The same time, or two times that were read from two clocks. -/
def Timestamp.Restamped (readings readings' : Nat → Timestamp) (time time' : Timestamp) : Prop :=
  time' = time ∨ (∃ i, time = readings i) ∧ ∃ j, time' = readings' j

/-- The same decision, up to times from two clocks. -/
def Decision.Restamped (readings readings' : Nat → Timestamp) (d d' : Decision) : Prop :=
  ∃ time, d.producedAt.Restamped readings readings' time ∧ d' = { d with producedAt := time }

/-- The same signal, up to times from two clocks. -/
def Signal.Restamped (readings readings' : Nat → Timestamp) (s s' : Signal) : Prop :=
  ∃ time, s.producedAt.Restamped readings readings' time ∧ s' = { s with producedAt := time }

/-- The same event, up to times from two clocks. -/
inductive Event.Restamped (readings readings' : Nat → Timestamp) : Event → Event → Prop
  /-- The same event. -/
  | same (event : Event) : Restamped readings readings' event event
  /-- Events about the same signal, up to times from two clocks. -/
  | signalGenerated (symbol market : String) {signal signal' : Signal}
      (h : signal.Restamped readings readings' signal') :
      Restamped readings readings' (.signalGenerated symbol market signal)
        (.signalGenerated symbol market signal')

/-- A source answers a request in the same way whenever it is asked, except that its decision may
carry the time at which it was asked. -/
def DecisionSource.Steady (source : DecisionSource) : Prop :=
  ∀ asked asked' now now' request,
    (source.answer asked' now' request).result = (source.answer asked now request).result ∨
      ∃ decision, (source.answer asked now request).result = .ok decision ∧
        decision.producedAt = now ∧
        (source.answer asked' now' request).result = .ok { decision with producedAt := now' }

section Restamped

variable {readings readings' : Nat → Timestamp}

theorem Decision.Restamped.refl (d : Decision) : d.Restamped readings readings' d :=
  ⟨d.producedAt, .inl rfl, rfl⟩

theorem Signal.Restamped.refl (s : Signal) : s.Restamped readings readings' s :=
  ⟨s.producedAt, .inl rfl, rfl⟩

/-- A signal takes over the time of its decision. -/
theorem Pipeline.signalOn_restamped (config : Config) {decide decide' : DecisionRequest → Decision}
    (h : ∀ request, (decide request).Restamped readings readings' (decide' request))
    (market : String) (price : Bar) (indicators : Snapshot) :
    (signalOn config decide market price indicators).Restamped readings readings'
      (signalOn config decide' market price indicators) := by
  obtain ⟨time, htime, hdecision⟩ := h (request config price indicators)
  refine ⟨time, htime, ?_⟩
  rw [signalOn, hdecision]
  rfl

/-- Worlds with the same steady source decide alike, up to times from their clocks. -/
theorem World.decisionOn_restamped {w w' : World}
    (hsteady : ∀ source, w.primary = some source → source.Steady)
    (hprimary : w'.primary = w.primary) (request : DecisionRequest) :
    (w.decisionOn request).Restamped w.clock.readings w'.clock.readings
      (w'.decisionOn request) := by
  have hread (v : World) : ∃ i, v.clock.now = v.clock.readings i := ⟨_, rfl⟩
  have htick (v : World) : ∃ i, v.clock.tick.now = v.clock.readings i := ⟨_, rfl⟩
  unfold decisionOn
  rw [hprimary]
  cases hsource : w.primary with
  | none => exact ⟨_, .inr ⟨hread w, hread w'⟩, rfl⟩
  | some source =>
      dsimp only
      rcases hsteady source hsource w.asked w'.asked w.clock.now w'.clock.now request with
        hsame | ⟨decision, hanswer, htime, hanswer'⟩
      · rw [hsame]
        cases (source.answer w.asked w.clock.now request).result with
        | ok decision => exact .refl _
        | error e => exact ⟨_, .inr ⟨htick w, htick w'⟩, rfl⟩
      · rw [hanswer, hanswer']
        exact ⟨_, .inr ⟨htime ▸ hread w, hread w'⟩, rfl⟩

end Restamped

/-! ### Slices up to times -/

/-- Two slices are the same up to times from two clocks: each signal is, and where the recent
signals were cached anew they are those of each slice. -/
structure Slice.Alike (config : Config) (readings readings' : Nat → Timestamp) (s s' : Slice) :
    Prop where
  instrument : s'.instrument = s.instrument
  bars : s'.bars = s.bars
  snapshots : s'.snapshots = s.snapshots
  signals : List.Forall₂ (Signal.Restamped readings readings') s.signals s'.signals
  cachedPrice : s'.cachedPrice = s.cachedPrice
  cachedSnapshot : s'.cachedSnapshot = s.cachedSnapshot
  cachedSignals : s'.cachedSignals = s.cachedSignals ∨ ∃ expiresAt,
    s.cachedSignals = some ⟨s.recent config, expiresAt⟩ ∧
      s'.cachedSignals = some ⟨s'.recent config, expiresAt⟩

/-- What handling comes to is the same up to times from two clocks. -/
structure Handled.Alike (config : Config) (readings readings' : Nat → Timestamp)
    (handled handled' : Handled Outcome) : Prop where
  result : handled'.result = handled.result
  published : List.Forall₂ (Event.Restamped readings readings') handled.published handled'.published
  slice : handled.slice.Alike config readings readings' handled'.slice

/-- The same cached signals, up to times from two clocks. -/
def Entry.Restamped (readings readings' : Nat → Timestamp) (e e' : Entry (List Signal)) : Prop :=
  List.Forall₂ (Signal.Restamped readings readings') e.value e'.value ∧ e'.expiresAt = e.expiresAt

/-- The times of signals put them in the same order. -/
def SameOrder (signals signals' : List Signal) : Prop :=
  ∀ p ∈ signals.zip signals', ∀ q ∈ signals.zip signals',
    Store.newestFirst p.1 q.1 = Store.newestFirst p.2 q.2

section Alike

variable {config : Config} {readings readings' : Nat → Timestamp} {s s' : Slice}

theorem Slice.Alike.refl (s : Slice) : s.Alike config readings readings' s :=
  ⟨rfl, rfl, rfl, List.forall₂_same.mpr fun signal _ => .refl signal, rfl, rfl, .inl rfl⟩

theorem Handled.Alike.refl (handled : Handled Outcome) :
    handled.Alike config readings readings' handled :=
  ⟨rfl, List.forall₂_same.mpr fun event _ => .same event, .refl _⟩

/-- Slices that are alike and have the same signals are the same. -/
theorem Slice.Alike.eq_of_signals (h : s.Alike config readings readings' s')
    (hsignals : s'.signals = s.signals) : s' = s := by
  have hrecent : s'.recent config = s.recent config := by rw [recent, recent, hsignals]
  have hcached : s'.cachedSignals = s.cachedSignals := by
    rcases h.cachedSignals with hsame | ⟨expiresAt, hold, hnew⟩
    · exact hsame
    · rw [hold, hnew, hrecent]
  obtain ⟨hinstrument, hbars, hsnapshots, -, hprice, hsnapshot, -⟩ := h
  cases s
  cases s'
  simp_all

/-- Where their times put signals in the same order, the recent ones are the same up to times. -/
theorem forall₂_recent {R : Signal → Signal → Prop} {signals signals' : List Signal}
    (h : List.Forall₂ R signals signals') (horder : SameOrder signals signals') (limit : Nat) :
    List.Forall₂ R ((signals.mergeSort Store.newestFirst).take limit)
      ((signals'.mergeSort Store.newestFirst).take limit) := by
  obtain ⟨hlength, hzip⟩ := List.forall₂_iff_zip.mp h
  -- Both lists are sorted at once, as pairs by the times of the first components.
  let order : Signal × Signal → Signal × Signal → Bool := fun p q => Store.newestFirst p.1 q.1
  let pairs := (signals.zip signals').mergeSort order
  have hfst : pairs.map Prod.fst = signals.mergeSort Store.newestFirst := by
    rw [List.map_mergeSort (s := Store.newestFirst) fun p _ q _ => rfl,
      List.map_fst_zip hlength.le]
  have hsnd : pairs.map Prod.snd = signals'.mergeSort Store.newestFirst := by
    rw [List.map_mergeSort horder, List.map_snd_zip hlength.ge]
  rw [← hfst, ← hsnd, ← List.map_take, ← List.map_take, List.forall₂_map_left_iff,
    List.forall₂_map_right_iff, List.forall₂_same]
  intro p hp
  exact hzip (List.mem_mergeSort.mp (List.mem_of_mem_take hp))

/-- The cached signals of slices that are alike are the same up to times, where these put the
signals in the same order. -/
theorem Slice.Alike.cached (h : s.Alike config readings readings' s')
    (horder : SameOrder s.signals s'.signals) :
    Option.Rel (Entry.Restamped readings readings') s.cachedSignals s'.cachedSignals := by
  rcases h.cachedSignals with hsame | ⟨expiresAt, hold, hnew⟩
  · rw [hsame]
    cases s.cachedSignals with
    | none => exact .none
    | some entry => exact .some ⟨List.forall₂_same.mpr fun signal _ => .refl signal, rfl⟩
  · rw [hold, hnew]
    exact .some ⟨forall₂_recent h.signals horder config.recentSignals, rfl⟩

theorem Slice.Alike.withSnapshots (h : s.Alike config readings readings' s')
    (past : List Snapshot) : { s with snapshots := past }.Alike config readings readings'
      { s' with snapshots := past } :=
  ⟨h.instrument, h.bars, rfl, h.signals, h.cachedPrice, h.cachedSnapshot, h.cachedSignals⟩

end Alike

namespace Slice

variable {ttl : CacheTtl} {instant : Nat} {decide decide' : DecisionRequest → Decision}
  {readings readings' : Nat → Timestamp} {s : Slice}

/-- What a stage comes to depends on the decisions only up to times from two clocks. -/
theorem handle_alike (config : Config) (ttl : CacheTtl) (instant : Nat) (s : Slice)
    (h : ∀ request, (decide request).Restamped readings readings' (decide' request))
    (event : Event) :
    (s.handle config ttl instant decide event).Alike config readings readings'
      (s.handle config ttl instant decide' event) := by
  unfold handle
  cases Pipeline.objection? event.symbol event.market s.instrument with
  | some cause => exact .refl _
  | none =>
      dsimp only
      cases event with
      | priceIngested symbol market => exact .refl _
      | indicatorRequested symbol market =>
          cases hcompute : config.lookbacks.compute symbol
              (Series.trailing config.effectivePriceWindow s.bars) with
          | error error =>
              rw [advance_of_early hcompute, advance_of_early hcompute]
              exact .refl _
          | ok snapshot =>
              rw [advance_of_computed hcompute, advance_of_computed hcompute]
              exact .refl _
      | signalGenerated symbol market signal => exact .refl _
      | decisionRequested symbol market indicators =>
          by_cases hsymbol : indicators.symbol = symbol
          · subst hsymbol
            cases hknown : s.knownPrice instant with
            | none =>
                rw [advance_of_unpriced hknown, advance_of_unpriced hknown]
                exact .refl _
            | some price =>
                have hsignal := Pipeline.signalOn_restamped config h market price indicators
                rw [advance_of_decided hknown rfl, advance_of_decided hknown rfl]
                refine ⟨rfl, .cons (.signalGenerated _ _ hsignal) .nil, rfl, rfl, rfl, ?_, rfl, rfl,
                  .inr ⟨_, rfl, rfl⟩⟩
                exact List.rel_append (List.forall₂_same.mpr fun signal _ => .refl signal)
                  (.cons hsignal .nil)
          · rw [advance_of_foreign hsymbol, advance_of_foreign hsymbol]
            exact .refl _

/-- After a decision that advanced the recent signals are cached. -/
theorem cachedSignals_of_advanced {config : Config} {event : Event}
    (hdecision : event.stage = .decisionRequested)
    (h : (s.handle config ttl instant decide event).result = .ok .advanced) :
    (s.handle config ttl instant decide event).slice.cachedSignals =
      some ⟨(s.handle config ttl instant decide event).slice.recent config,
        instant + ttl.signals.nanos⟩ := by
  have hhandling := s.handling config ttl instant decide event
  generalize s.handle config ttl instant decide event = handled at *
  cases hhandling with
  | decided => rfl
  | refused => cases h
  | early => cases h
  | dropped | computed | completed => cases hdecision

theorem withPrice_snapshots (past : List Snapshot) :
    { s with snapshots := past }.withPrice ttl instant =
      { s.withPrice ttl instant with snapshots := past } := by
  unfold withPrice
  cases liveValue? s.cachedPrice instant with
  | some bar => rfl
  | none => cases s.bars.getLast? <;> rfl

/-- A stage adds to the snapshots and does not look at them. -/
theorem handle_snapshots (config : Config) (ttl : CacheTtl) (instant : Nat)
    (decide : DecisionRequest → Decision) (s : Slice) (past : List Snapshot) (event : Event) :
    ∃ added,
    (s.handle config ttl instant decide event).slice.snapshots = s.snapshots ++ added ∧
      { s with snapshots := past }.handle config ttl instant decide event =
        { s.handle config ttl instant decide event with
          slice := { (s.handle config ttl instant decide event).slice with
            snapshots := past ++ added } } := by
  unfold handle
  cases Pipeline.objection? event.symbol event.market s.instrument with
  | some cause => exact ⟨[], by simp [refuse], by simp [refuse]⟩
  | none =>
      dsimp only
      cases event with
      | priceIngested symbol market => exact ⟨[], by simp [advance], by simp [advance]⟩
      | signalGenerated symbol market signal => exact ⟨[], by simp [advance], by simp [advance]⟩
      | indicatorRequested symbol market =>
          cases hcompute : config.lookbacks.compute symbol
              (Series.trailing config.effectivePriceWindow s.bars) with
          | error error =>
              rw [advance_of_early hcompute, advance_of_early (by exact hcompute)]
              exact ⟨[], by simp, by simp⟩
          | ok snapshot =>
              rw [advance_of_computed hcompute, advance_of_computed (by exact hcompute)]
              exact ⟨[snapshot], rfl, rfl⟩
      | decisionRequested symbol market indicators =>
          by_cases hsymbol : indicators.symbol = symbol
          · subst hsymbol
            cases hknown : s.knownPrice instant with
            | none =>
                rw [advance_of_unpriced hknown, advance_of_unpriced (by exact hknown)]
                exact ⟨[], by simp [refuse], by simp [refuse]⟩
            | some price =>
                rw [advance_of_decided hknown rfl, advance_of_decided (by exact hknown) rfl]
                refine ⟨[], ?_, ?_⟩
                · rw [List.append_nil]
                  exact s.snapshots_withPrice ttl instant
                · rw [withPrice_snapshots, List.append_nil]
                  rfl
          · rw [advance_of_foreign hsymbol, advance_of_foreign hsymbol]
            exact ⟨[], by simp [refuse], by simp [refuse]⟩

end Slice

/-! ### States that are attained -/

/-- Store and cache hold what queries made of them. -/
structure World.Attained (w : World) : Prop where
  store : ∃ queries, w.store = ({} : Store).carryOut queries
  cache : ∃ ttl uses, w.cache = ({ ttl } : Cache).carryOut uses

/-- Prices are cached under their own symbol. -/
def Cache.PricesOwned (c : Cache) : Prop :=
  ∀ symbol entry, Keyed.get? c.prices symbol = some entry → entry.value.symbol = symbol

theorem Cache.PricesOwned.ask {c : Cache} (h : c.PricesOwned) (instant : Nat)
    (query : Cache.Query) : (c.ask instant query).2.PricesOwned := by
  intro symbol entry hentry
  cases query with
  | price | snapshot | signals | setSnapshot | setSignals => exact h symbol entry hentry
  | setPrice bar =>
      simp only [Cache.ask, setPrice, Slots.put, Keyed.get?_insert] at hentry
      split at hentry
      · rename_i hsame
        cases hentry
        exact hsame
      · exact h symbol entry hentry
  | invalidate name =>
      simp only [Cache.ask, invalidate, Slots.drop, Keyed.get?_erase] at hentry
      split at hentry
      · cases hentry
      · exact h symbol entry hentry

theorem Cache.PricesOwned.carryOut {c : Cache} (h : c.PricesOwned)
    (uses : List (Nat × Cache.Query)) : (c.carryOut uses).PricesOwned := by
  induction uses generalizing c with
  | nil => exact h
  | cons use rest ih => exact ih (h.ask use.1 use.2)

/-- In a world that is attained, every symbol has bars of its own only. -/
theorem World.Attained.owned {w : World} (h : w.Attained) (symbol : String) :
    (w.slice symbol).Owned symbol where
  bars := by
    obtain ⟨queries, hstore⟩ := h.store
    rw [slice, hstore]
    exact (PriceMap.lists_carryOut queries symbol).symbol_eq
  cachedPrice := by
    obtain ⟨ttl, uses, hcache⟩ := h.cache
    have hempty : ({ ttl } : Cache).PricesOwned := fun symbol entry hentry => by cases hentry
    rw [slice, hcache]
    exact hempty.carryOut uses symbol

/-! ### One event in two worlds -/

namespace World

/-- What handling an event comes to, as far as its own symbol goes. -/
def handled (w : World) (config : Config) (event : Event) : Handled Outcome :=
  let done := w.after (Pipeline.handle config event).run
  ⟨done.1, done.2.log.drop w.log.length, done.2.slice event.symbol⟩

variable {w w' : World} {config : Config} {event : Event}

theorem handled_eq (hcalm : w.Calm) (hnames : w.NamesSymbols)
    (howned : (w.slice event.symbol).Owned event.symbol) :
    w.handled config event =
      (w.slice event.symbol).handle config w.cache.ttl w.clock.instant w.decisionOn event := by
  obtain ⟨hresult, hchanges⟩ := Pipeline.handle_follows hcalm hnames config event howned
  rw [handled, hresult, hchanges.own, hchanges.log, List.drop_left]

/-- What handling an event comes to is told by the instrument, the prices, the signals and what is
cached of its symbol. -/
theorem handled_alike (hcalm : w.Calm) (hcalm' : w'.Calm) (hnames : w.NamesSymbols)
    (hsteady : ∀ source, w.primary = some source → source.Steady)
    (howned : (w.slice event.symbol).Owned event.symbol)
    (howned' : (w'.slice event.symbol).Owned event.symbol)
    (hprimary : w'.primary = w.primary) (httl : w'.cache.ttl = w.cache.ttl)
    (hinstant : w'.clock.instant = w.clock.instant) {past : List Snapshot}
    (hslice : w'.slice event.symbol = { w.slice event.symbol with snapshots := past }) :
    ∃ added,
      (w.handled config event).slice.snapshots = (w.slice event.symbol).snapshots ++ added ∧
      Handled.Alike config w.clock.readings w'.clock.readings
        { w.handled config event with
          slice := { (w.handled config event).slice with snapshots := past ++ added } }
        (w'.handled config event) := by
  have hnames' : w'.NamesSymbols := by
    rw [NamesSymbols, hprimary]
    exact hnames
  rw [handled_eq hcalm hnames howned, handled_eq hcalm' hnames' howned', hslice, httl, hinstant]
  have halike := (w.slice event.symbol).handle_alike config w.cache.ttl w.clock.instant
    (decisionOn_restamped hsteady hprimary) event
  obtain ⟨added, hadded, -⟩ := (w.slice event.symbol).handle_snapshots config w.cache.ttl
    w.clock.instant w.decisionOn past event
  obtain ⟨added', hadded', hpast⟩ := (w.slice event.symbol).handle_snapshots config w.cache.ttl
    w.clock.instant w'.decisionOn past event
  -- The two worlds may decide at other times, but they add the same snapshots.
  have hsame : added' = added :=
    List.append_cancel_left (hadded'.symm.trans (halike.slice.snapshots.trans hadded))
  rw [hpast, hsame]
  exact ⟨added, hadded, halike.result, halike.published, halike.slice.withSnapshots _⟩

end World

/-! ### Two events -/

namespace Pipeline

variable {w : World} {config : Config}

/-- Handles each event in turn. -/
abbrev handleEach (config : Config) (events : List Event) :
    Process (List (Event × Except PipelineError Outcome)) :=
  forEach (fun event => (handle config event).run) events

theorem after_handleEach (config : Config) (w : World) (first second : Event) :
    let done := w.after (handle config first).run
    let done' := done.2.after (handle config second).run
    w.after (handleEach config [first, second]) =
      ([(first, done.1), (second, done'.1)], done'.2) := by
  simp only [handleEach, forEach, World.after, Process.run_bind]
  rfl

/-- Two events of different symbols come to what the slices of their symbols say. Only the decision
on the second one is made in another world, in which the clock was read more often. -/
theorem handleEach_follows (config : Config) (hcalm : w.Calm) (hnames : w.NamesSymbols)
    {first second : Event} (howned : (w.slice first.symbol).Owned first.symbol)
    (howned' : (w.slice second.symbol).Owned second.symbol)
    (hother : second.symbol ≠ first.symbol) : ∃ v : World,
    v.primary = w.primary ∧ v.clock.readings = w.clock.readings ∧
    let one := (w.slice first.symbol).handle config w.cache.ttl w.clock.instant w.decisionOn first
    let two := (w.slice second.symbol).handle config w.cache.ttl w.clock.instant v.decisionOn second
    let done := w.after (handleEach config [first, second])
    done.1 = [(first, one.result), (second, two.result)] ∧
      done.2.log = w.log ++ (one.published ++ two.published) ∧
      ∀ symbol, done.2.slice symbol =
        if second.symbol = symbol then two.slice
        else if first.symbol = symbol then one.slice else w.slice symbol := by
  obtain ⟨hresult, hchanges⟩ := handle_follows hcalm hnames config first howned
  have hafter := after_handleEach config w first second
  generalize w.after (handle config first).run = done at *
  obtain ⟨result, v⟩ := done
  have hslice : v.slice second.symbol = w.slice second.symbol := hchanges.other hother
  obtain ⟨hresult', hchanges'⟩ := handle_follows (w := v) (hchanges.faults.trans hcalm)
    (by rw [World.NamesSymbols, hchanges.primary]; exact hnames) config second
    (by rw [hslice]; exact howned')
  rw [hslice, hchanges.ttl, hchanges.instant] at hresult' hchanges'
  refine ⟨v, hchanges.primary, hchanges.readings, ?_, ?_, fun symbol => ?_⟩
  · rw [hafter, ← hresult, ← hresult']
  · rw [hafter]
    exact hchanges'.log.trans (by rw [hchanges.log, List.append_assoc])
  · rw [hafter]
    exact (hchanges'.slices symbol).trans (by rw [hchanges.slices])

/-- Where two events of different symbols have both advanced, a decision among them has left the
recent signals of its symbol in the cache. -/
theorem cachedSignals_of_decided (config : Config) (hcalm : w.Calm) (hnames : w.NamesSymbols)
    {first second : Event} (howned : (w.slice first.symbol).Owned first.symbol)
    (howned' : (w.slice second.symbol).Owned second.symbol)
    (hother : second.symbol ≠ first.symbol)
    (hadvanced : (w.after (handleEach config [first, second])).1.map Prod.snd =
      [.ok .advanced, .ok .advanced])
    {event : Event} (hevent : event ∈ [first, second])
    (hdecision : event.stage = .decisionRequested) :
    ((w.after (handleEach config [first, second])).2.slice event.symbol).cachedSignals =
      some ⟨((w.after (handleEach config [first, second])).2.slice event.symbol).recent config,
        w.clock.instant + w.cache.ttl.signals.nanos⟩ := by
  obtain ⟨v, -, -, hresults, -, hslices⟩ :=
    handleEach_follows config hcalm hnames howned howned' hother
  rw [hresults] at hadvanced
  obtain ⟨hfirst, hsecond⟩ : _ ∧ _ := by simpa using hadvanced
  rw [hslices]
  rcases List.mem_pair.mp hevent with rfl | rfl
  · rw [if_neg hother, if_pos rfl]
    exact Slice.cachedSignals_of_advanced hdecision hfirst
  · rw [if_pos rfl]
    exact Slice.cachedSignals_of_advanced hdecision hsecond

/-- Two events of different symbols, handled in either order, end in the same ways, publish the same
events and leave the same data of every symbol, up to times from the two clocks. -/
theorem handleEach_swap (config : Config) (hcalm : w.Calm) (hnames : w.NamesSymbols)
    (hsteady : ∀ source, w.primary = some source → source.Steady) {event other : Event}
    (howned : (w.slice event.symbol).Owned event.symbol)
    (howned' : (w.slice other.symbol).Owned other.symbol) (hother : other.symbol ≠ event.symbol)
    {clock : Clock} (hinstant : clock.instant = w.clock.instant) :
    let onward := w.after (handleEach config [event, other])
    let back := { w with clock }.after (handleEach config [other, event])
    back.1 = onward.1.reverse ∧
      (∃ published published', onward.2.log = w.log ++ published ∧
        back.2.log = w.log ++ published' ∧
        ∃ rearranged, published'.Perm rearranged ∧
          List.Forall₂ (Event.Restamped w.clock.readings clock.readings) published rearranged) ∧
      ∀ symbol, (onward.2.slice symbol).Alike config w.clock.readings clock.readings
        (back.2.slice symbol) := by
  obtain ⟨v, hprimary, hreadings, hresults, hlog, hslices⟩ :=
    handleEach_follows config hcalm hnames howned howned' hother
  obtain ⟨v', hprimary', hreadings', hresults', hlog', hslices'⟩ :=
    handleEach_follows (w := { w with clock }) config hcalm hnames howned' howned hother.symm
  have hinstant' : ({ w with clock } : World).clock.instant = w.clock.instant := hinstant
  -- In both runs each event finds the slice of its symbol as it was at first. What differs is the
  -- world in which the decision on it is made.
  have halike := (w.slice event.symbol).handle_alike config w.cache.ttl w.clock.instant
    (World.decisionOn_restamped hsteady hprimary') event
  have halike' := (w.slice other.symbol).handle_alike config w.cache.ttl w.clock.instant
    (World.decisionOn_restamped (w := v) (by rw [hprimary]; exact hsteady)
      (show ({ w with clock } : World).primary = v.primary from hprimary.symm)) other
  rw [hreadings'] at halike
  rw [hreadings] at halike'
  rw [hinstant'] at hresults' hlog' hslices'
  intro onward back
  refine ⟨?_, ⟨_, _, hlog, hlog', _, List.perm_append_comm,
    List.rel_append halike.published halike'.published⟩, fun symbol => ?_⟩
  · rw [hresults, hresults', List.reverse_cons, List.reverse_singleton]
    exact congrArg₂ (fun r r' => [(other, r), (event, r')]) halike'.result halike.result
  · rw [hslices, hslices']
    by_cases hevent : event.symbol = symbol
    · rw [if_neg (hevent ▸ hother), if_pos hevent, if_pos hevent]
      exact halike.slice
    · rw [if_neg hevent, if_neg hevent]
      split
      · exact halike'.slice
      · exact .refl _

/-- **Instruments are isolated.** Over a store and a cache that hold what queries made of them, with
the rules or a steady source that names the symbol it is asked about, and where nothing fails:

* handling an event leaves the data of every other symbol exactly as they were;
* how it ends, what it publishes and what it makes of its own symbol is the same in every world that
  holds the same instrument, prices, signals and cached values of that symbol, and what it adds to
  the snapshots does not depend on those before;
* events of two symbols may change places: they end in the same ways, publish the same events and
  leave the same data of every symbol, its cached signals apart.

The last two hold up to times that were read from the clocks of the two runs: where the signals of a
symbol carry the same times, all its data are the same. Which signals are the recent ones is a
matter of their times, too. So the cached ones are the recent ones of each run, and only where the
times put the signals of the symbol in the same order are they the same up to times. -/
theorem instruments_isolated {config : Config} {w : World} (hcalm : w.Calm)
    (hattained : w.Attained) (hsteady : ∀ source, w.primary = some source → source.Steady)
    (hnames : w.NamesSymbols) (event : Event) :
    (∀ symbol, symbol ≠ event.symbol →
      (w.after (handle config event).run).2.slice symbol = w.slice symbol) ∧
    (∀ w' : World, w'.Calm → w'.Attained → w'.primary = w.primary →
      w'.cache.ttl = w.cache.ttl → w'.clock.instant = w.clock.instant → ∀ past,
      w'.slice event.symbol = { w.slice event.symbol with snapshots := past } → ∃ added,
        (w.handled config event).slice.snapshots =
          (w.slice event.symbol).snapshots ++ added ∧
        Handled.Alike config w.clock.readings w'.clock.readings
          { w.handled config event with
            slice := { (w.handled config event).slice with snapshots := past ++ added } }
          (w'.handled config event)) ∧
    ∀ other : Event, other.symbol ≠ event.symbol →
      ∀ clock : Clock, clock.instant = w.clock.instant →
      let onward := w.after (handleEach config [event, other])
      let back := { w with clock }.after (handleEach config [other, event])
      back.1 = onward.1.reverse ∧
      (∃ published published', onward.2.log = w.log ++ published ∧
        back.2.log = w.log ++ published' ∧
        ∃ rearranged, published'.Perm rearranged ∧
          List.Forall₂ (Event.Restamped w.clock.readings clock.readings) published rearranged) ∧
      ∀ symbol,
        (onward.2.slice symbol).Alike config w.clock.readings clock.readings
          (back.2.slice symbol) ∧
        ((back.2.slice symbol).signals = (onward.2.slice symbol).signals →
          back.2.slice symbol = onward.2.slice symbol) ∧
        (SameOrder (onward.2.slice symbol).signals (back.2.slice symbol).signals →
          Option.Rel (Entry.Restamped w.clock.readings clock.readings)
            (onward.2.slice symbol).cachedSignals (back.2.slice symbol).cachedSignals) := by
  refine ⟨fun symbol hsymbol => ?_,
    fun w' hcalm' hattained' hprimary httl hinstant past hslice => ?_,
    fun other hother clock hinstant => ?_⟩
  · exact (handle_follows hcalm hnames config event (hattained.owned _)).changes.other hsymbol
  · exact World.handled_alike hcalm hcalm' hnames hsteady (hattained.owned _)
      (hattained'.owned _) hprimary httl hinstant hslice
  · obtain ⟨hresults, hpublished, hslices⟩ := handleEach_swap config hcalm hnames hsteady
      (hattained.owned event.symbol) (hattained.owned other.symbol) hother hinstant
    exact ⟨hresults, hpublished, fun symbol =>
      ⟨hslices symbol, (hslices symbol).eq_of_signals, (hslices symbol).cached⟩⟩

/-- A bar of a symbol. -/
def barOf (symbol : String) : Bar :=
  ⟨symbol, "NASDAQ", 10, 11, 9, 10, 1000, 0, .epoch⟩

/-- A decision on a symbol is asked for. -/
def decisionOf (symbol : String) : Event :=
  .decisionRequested symbol "NASDAQ"
    ⟨symbol, ⟨50, ⟨0, 0, 0⟩, 100, 100, 100, 100, ⟨100, 100, 100⟩, ⟨50, 50⟩, -50, 0, 0⟩, 50, .epoch⟩

/-- A world with some instruments that have one bar each, and with some signals, in which the rules
decide. -/
def trading (symbols : List String) (signals : List Signal := []) : World where
  store := ({} : Store).carryOut
    ((symbols.flatMap fun symbol =>
      [.addInstrument ⟨symbol, "NASDAQ", "", true⟩, .appendPrice (barOf symbol)]) ++
        signals.map .appendSignal)
  clock :=
    { readings := fun
        | 0 => .epoch
        | _ + 1 => ⟨2, 0, by decide⟩ }

theorem attained_trading (symbols : List String) (signals : List Signal) :
    (trading symbols signals).Attained :=
  ⟨⟨_, rfl⟩, ⟨{}, [], rfl⟩⟩

/-- Two decisions may change places, and neither looks at the other instrument. -/
theorem instruments_isolated_pair :
    let both := trading ["AAPL", "MSFT"]
    let one := trading ["AAPL"]
    let onward := both.after (handleEach {} [decisionOf "AAPL", decisionOf "MSFT"])
    let back := both.after (handleEach {} [decisionOf "MSFT", decisionOf "AAPL"])
    (both.after (handle {} (decisionOf "AAPL")).run).2.slice "MSFT" = both.slice "MSFT" ∧
      (one.handled {} (decisionOf "AAPL")).result =
        (both.handled {} (decisionOf "AAPL")).result ∧
      onward.1.map Prod.snd = [.ok .advanced, .ok .advanced] ∧
      back.1 = onward.1.reverse ∧
      (onward.2.slice "AAPL").Alike {} both.clock.readings both.clock.readings
        (back.2.slice "AAPL") := by
  intro both one onward back
  have hsteady : ∀ source, both.primary = some source → source.Steady :=
    fun source hsource => by cases hsource
  have hnames : both.NamesSymbols := fun source hsource => by cases hsource
  obtain ⟨hframe, hlocal, hswap⟩ := @instruments_isolated {} both rfl (attained_trading _ _) hsteady
    hnames (decisionOf "AAPL")
  obtain ⟨added, -, halike⟩ := hlocal one rfl (attained_trading _ _) rfl rfl rfl [] (by rfl)
  obtain ⟨hresults, -, hslices⟩ := hswap (decisionOf "MSFT") (by decide) both.clock rfl
  exact ⟨hframe "MSFT" (by decide), halike.result, by decide +kernel, hresults,
    (hslices "AAPL").1⟩

/-- Cached signals that are the same up to times ask for the same actions. -/
theorem actions_eq_of_restamped {readings readings' : Nat → Timestamp}
    {cached cached' : Option (Entry (List Signal))}
    (h : Option.Rel (Entry.Restamped readings readings') cached cached') :
    cached'.map (·.value.map Signal.action) = cached.map (·.value.map Signal.action) := by
  cases h with
  | none => rfl
  | some hentry =>
      refine congrArg some (List.forall₂_eq_eq_eq ▸ ?_)
      rw [List.forall₂_map_left_iff, List.forall₂_map_right_iff]
      exact hentry.1.flip.imp fun _ _ ⟨_, _, hsame⟩ => by rw [hsame]

/-- Of two signals in a window of one, the newer one is recent. -/
theorem actions_recent_of_two {config : Config} (hlimit : config.recentSignals = 1) {s : Slice}
    {action action' : Action} {time time' : Timestamp}
    (hsignals : s.signals.map (fun signal => (signal.action, signal.producedAt)) =
      [(action, time), (action', time')]) :
    (s.recent config).map Signal.action = [if time' ≤ time then action else action'] := by
  obtain ⟨first, rest, hfirst, hhead, hrest⟩ := List.map_eq_cons_iff.mp hsignals
  obtain ⟨second, rfl, hlast⟩ := List.map_eq_singleton_iff.mp hrest
  cases hhead
  cases hlast
  rw [Slice.recent, hfirst, hlimit]
  by_cases hnewer : second.producedAt ≤ first.producedAt
  · have horder : Store.newestFirst first second = true := decide_eq_true hnewer
    simp [List.mergeSort, List.MergeSort.Internal.splitInTwo, horder, hnewer]
  · have horder : Store.newestFirst first second = false := decide_eq_false hnewer
    simp [List.mergeSort, List.MergeSort.Internal.splitInTwo, horder, hnewer]

/-- The action that is cached for a window of one is that of the newer of two signals. -/
theorem cachedActions_of_two {config : Config} (hlimit : config.recentSignals = 1)
    (hcalm : w.Calm) (hattained : w.Attained) (hrules : w.primary = none) {first second : Event}
    (hother : second.symbol ≠ first.symbol)
    (hadvanced : (w.after (handleEach config [first, second])).1.map Prod.snd =
      [.ok .advanced, .ok .advanced])
    {event : Event} (hevent : event ∈ [first, second])
    (hdecision : event.stage = .decisionRequested) (action action' : Action)
    (time time' : Timestamp)
    (hsignals : ((w.after (handleEach config [first, second])).2.slice event.symbol).signals.map
      (fun signal => (signal.action, signal.producedAt)) = [(action, time), (action', time')]) :
    ((w.after (handleEach config [first, second])).2.slice event.symbol).cachedSignals.map
      (·.value.map Signal.action) = some [if time' ≤ time then action else action'] := by
  have hnames : w.NamesSymbols := fun source hsource => by cases hrules.symm.trans hsource
  have hcached := cachedSignals_of_decided config hcalm hnames (hattained.owned first.symbol)
    (hattained.owned second.symbol) hother hadvanced hevent hdecision
  rw [hcached]
  exact congrArg some (actions_recent_of_two hlimit hsignals)

/-- A signal from between the times that the clock of the world shows. -/
def signalBetween : Signal :=
  ⟨"AAPL", "NASDAQ", .buy, 0.5, 0.5, [], .rule, ⟨1, 500000000, by decide⟩⟩

/-- **The order of two decisions may show in the cached signals**, and not in their times alone. The
first reading of the clock is before the signal that is stored, the second one after it. So a
decision that is made first has a signal that is not the newest, and the same decision made last has
one that is; the newest is cached. -/
theorem swap_changes_newest :
    let w := trading ["AAPL", "MSFT"] [signalBetween]
    let config : Config := { recentSignals := 1 }
    let onward := w.after (handleEach config [decisionOf "AAPL", decisionOf "MSFT"])
    let back := w.after (handleEach config [decisionOf "MSFT", decisionOf "AAPL"])
    (w.Calm ∧ w.Attained ∧ w.primary = none) ∧
      (onward.2.slice "AAPL").cachedSignals.map (·.value.map Signal.action) = some [.buy] ∧
      (back.2.slice "AAPL").cachedSignals.map (·.value.map Signal.action) = some [.sell] ∧
      ¬ Option.Rel (Entry.Restamped w.clock.readings w.clock.readings)
        (onward.2.slice "AAPL").cachedSignals (back.2.slice "AAPL").cachedSignals := by
  intro w config onward back
  have hattained : w.Attained := attained_trading _ _
  have honward : (onward.2.slice "AAPL").cachedSignals.map (·.value.map Signal.action) =
      some [.buy] :=
    cachedActions_of_two rfl rfl hattained rfl (by decide) (by decide +kernel) List.mem_cons_self
      rfl .buy .sell ⟨1, 500000000, by decide⟩ .epoch (by decide +kernel)
  have hback : (back.2.slice "AAPL").cachedSignals.map (·.value.map Signal.action) =
      some [.sell] :=
    cachedActions_of_two rfl rfl hattained rfl (by decide) (by decide +kernel)
      (List.mem_cons_of_mem _ List.mem_cons_self) rfl .buy .sell ⟨1, 500000000, by decide⟩
      ⟨2, 0, by decide⟩ (by decide +kernel)
  refine ⟨⟨rfl, hattained, rfl⟩, honward, hback, fun hsame => ?_⟩
  have hactions := actions_eq_of_restamped hsame
  rw [honward, hback] at hactions
  simp at hactions

end Pipeline

end MarketSignals
