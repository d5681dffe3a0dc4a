import MarketSignals.Proofs.Pipeline.Calm
import MarketSignals.Proofs.Pipeline.WriteAhead
import MarketSignals.Proofs.Store.Queries

/-!
# One symbol at a time

A store and a cache hold the data of all symbols together; the slice of a symbol is its share. Where
no failure lies ahead, what an operation on a symbol comes to is a function of the slice of that
symbol, and the slices of all other symbols stay as they are.

## Main results

* `Slice.handle`, `Slice.record`, `Slice.lookUpPrice`, `Slice.lookUpSignals`: the operations as
  functions on slices.
* `Slice.handling`: the ways in which an event can be handled.
* `Slice.of_appendSignal` and its siblings: what a single write does to every slice.
* `handle_follows`: handling an event is `Slice.handle` on the slice of its symbol.
* `recordPrice_follows`, `latestPrice_follows`, `recentSignals_follows`: the same for the other
  operations on a symbol.
-/

namespace MarketSignals

/-- The value of an entry that is there at an instant. -/
def liveValue? {α : Type} (entry : Option (Entry α)) (instant : Nat) : Option α :=
  match entry with
  | some entry => if entry.isLive instant then some entry.value else none
  | none => none

/-- What a store and a cache hold of one symbol. -/
structure Slice where
  /-- The instrument. -/
  instrument : Option Instrument
  /-- The bars, the oldest first. -/
  bars : List Bar
  /-- The snapshots, the oldest first. -/
  snapshots : List Snapshot
  /-- The signals, in the order they were added. -/
  signals : List Signal
  /-- The cached price, expired or not. -/
  cachedPrice : Option (Entry Bar)
  /-- The cached snapshot, expired or not. -/
  cachedSnapshot : Option (Entry Snapshot)
  /-- The cached signals, expired or not. -/
  cachedSignals : Option (Entry (List Signal))

/-- How an operation on a symbol ends, what it publishes and what is held of the symbol then. -/
structure Handled (α : Type) where
  /-- The result. -/
  result : Except PipelineError α
  /-- The published events. -/
  published : List Event
  /-- The slice of the symbol. -/
  slice : Slice

namespace Slice

/-- The slice of a symbol. -/
def of (s : Store) (c : Cache) (symbol : String) : Slice where
  instrument := s.findInstrument symbol
  bars := s.bars symbol
  snapshots := s.snapshotsOf symbol
  signals := s.signalsOf symbol
  cachedPrice := Keyed.get? c.prices symbol
  cachedSnapshot := Keyed.get? c.snapshots symbol
  cachedSignals := Keyed.get? c.signals symbol

/-! ### Stages on slices -/

/-- The latest price that is known, the cached one first. -/
def knownPrice (s : Slice) (instant : Nat) : Option Bar :=
  (liveValue? s.cachedPrice instant).or s.bars.getLast?

/-- The slice once its latest price was looked up. -/
def withPrice (s : Slice) (ttl : CacheTtl) (instant : Nat) : Slice :=
  match liveValue? s.cachedPrice instant, s.bars.getLast? with
  | none, some bar => { s with cachedPrice := some ⟨bar, instant + ttl.price.nanos⟩ }
  | _, _ => s

/-- A lookup of the price leaves the slice as it is, or caches the latest bar. -/
theorem withPrice_cases (s : Slice) (ttl : CacheTtl) (instant : Nat) :
    s.withPrice ttl instant = s ∨ ∃ bar, s.bars.getLast? = some bar ∧
      s.withPrice ttl instant = { s with cachedPrice := some ⟨bar, instant + ttl.price.nanos⟩ } := by
  unfold withPrice
  split
  · rename_i bar _ hlast
    exact .inr ⟨bar, hlast, rfl⟩
  · exact .inl rfl

@[simp] theorem instrument_withPrice (s : Slice) (ttl : CacheTtl) (instant : Nat) :
    (s.withPrice ttl instant).instrument = s.instrument := by
  rcases s.withPrice_cases ttl instant with h | ⟨bar, -, h⟩ <;> rw [h]

@[simp] theorem snapshots_withPrice (s : Slice) (ttl : CacheTtl) (instant : Nat) :
    (s.withPrice ttl instant).snapshots = s.snapshots := by
  rcases s.withPrice_cases ttl instant with h | ⟨bar, -, h⟩ <;> rw [h]

/-- The window of recent signals. -/
def recent (s : Slice) (config : Config) : List Signal :=
  (s.signals.mergeSort Store.newestFirst).take config.recentSignals

/-- The slice with its window of recent signals in the cache. -/
def withRecent (s : Slice) (config : Config) (ttl : CacheTtl) (instant : Nat) : Slice :=
  { s with cachedSignals := some ⟨s.recent config, instant + ttl.signals.nanos⟩ }

/-- An event that is refused changes nothing. -/
def refuse {α : Type} (s : Slice) (cause : Malformed) : Handled α :=
  ⟨.error (.malformed cause), [], s⟩

/-- What a stage adds once nothing speaks against its event. -/
def advance (config : Config) (ttl : CacheTtl) (instant : Nat)
    (decide : DecisionRequest → Decision) (s : Slice) : Event → Handled Outcome
  | .priceIngested symbol market =>
    ⟨.ok .advanced, [.indicatorRequested symbol market],
      { s with cachedPrice := none, cachedSnapshot := none, cachedSignals := none }⟩
  | .indicatorRequested symbol market =>
    match config.lookbacks.compute symbol
        (Series.trailing config.effectivePriceWindow s.bars) with
    | .error error => ⟨.ok (.endedEarly error), [], s⟩
    | .ok snapshot =>
      ⟨.ok .advanced, [.decisionRequested symbol market snapshot],
        { s with
          snapshots := s.snapshots ++ [snapshot]
          cachedSnapshot := some ⟨snapshot, instant + ttl.snapshot.nanos⟩ }⟩
  | .decisionRequested symbol market indicators =>
    if indicators.symbol = symbol then
      match s.knownPrice instant with
      | none => s.refuse (.noPrice symbol)
      | some price =>
        let signal := Pipeline.signalOn config decide market price indicators
        let given := { s.withPrice ttl instant with signals := s.signals ++ [signal] }
        ⟨.ok .advanced, [.signalGenerated symbol market signal],
          given.withRecent config ttl instant⟩
    else s.refuse (.foreignSnapshot indicators.symbol symbol)
  | .signalGenerated _ _ _ => ⟨.ok .completed, [], s⟩

/-- The stage of an event, on the slice of its symbol. -/
def handle (config : Config) (ttl : CacheTtl) (instant : Nat)
    (decide : DecisionRequest → Decision) (s : Slice) (event : Event) : Handled Outcome :=
  match Pipeline.objection? event.symbol event.market s.instrument with
  | some cause => s.refuse cause
  | none => s.advance config ttl instant decide event

/-- A new price is stored and reported, unless something speaks against it. -/
def record (s : Slice) (bar : Bar) : Handled Unit :=
  match Pipeline.objection? bar.symbol bar.market s.instrument with
  | some cause => s.refuse cause
  | none =>
    ⟨.ok (), [.priceIngested bar.symbol bar.market], { s with bars := insertBar bar s.bars }⟩

/-- The latest price is looked up. -/
def lookUpPrice (ttl : CacheTtl) (instant : Nat) (s : Slice) : Handled (Option Bar) :=
  ⟨.ok (s.knownPrice instant), [], s.withPrice ttl instant⟩

/-- The recent signals are looked up. -/
def lookUpSignals (config : Config) (ttl : CacheTtl) (instant : Nat) (s : Slice) :
    Handled (List Signal) :=
  match liveValue? s.cachedSignals instant with
  | some signals => ⟨.ok signals, [], s⟩
  | none => ⟨.ok (s.recent config), [], s.withRecent config ttl instant⟩

/-! ### What a stage comes to -/

/-- An event drops what is cached of its symbol. -/
def DroppedBy (s : Slice) (event : Event) : Prop :=
  event.stage = .priceIngested ∧ Pipeline.objection? event.symbol event.market s.instrument = none

/-- The ways in which an event can be handled. -/
inductive Handling (config : Config) (ttl : CacheTtl) (instant : Nat)
    (decide : DecisionRequest → Decision) (s : Slice) : Event → Handled Outcome → Prop
  /-- The event is refused. -/
  | refused {event : Event} {cause : Malformed} (hkept : ¬ s.DroppedBy event) :
      Handling config ttl instant decide s event (s.refuse cause)
  /-- What is cached is dropped. -/
  | dropped {symbol market : String}
      (hsound : Pipeline.objection? symbol market s.instrument = none) :
      Handling config ttl instant decide s (.priceIngested symbol market)
        ⟨.ok .advanced, [.indicatorRequested symbol market],
          { s with cachedPrice := none, cachedSnapshot := none, cachedSignals := none }⟩
  /-- The prices make no snapshot, and the cycle ends early. -/
  | early {symbol market : String} {error : IndicatorError}
      (hcompute : config.lookbacks.compute symbol
        (Series.trailing config.effectivePriceWindow s.bars) = .error error) :
      Handling config ttl instant decide s (.indicatorRequested symbol market)
        ⟨.ok (.endedEarly error), [], s⟩
  /-- A snapshot is stored, cached and reported. -/
  | computed {symbol market : String} {snapshot : Snapshot}
      (hcompute : config.lookbacks.compute symbol
        (Series.trailing config.effectivePriceWindow s.bars) = .ok snapshot) :
      Handling config ttl instant decide s (.indicatorRequested symbol market)
        ⟨.ok .advanced, [.decisionRequested symbol market snapshot],
          { s with
            snapshots := s.snapshots ++ [snapshot]
            cachedSnapshot := some ⟨snapshot, instant + ttl.snapshot.nanos⟩ }⟩
  /-- A signal is stored, cached among the recent ones and reported. -/
  | decided {market : String} {indicators : Snapshot} {price : Bar} {signal : Signal}
      (hknown : s.knownPrice instant = some price)
      (hsignal : signal = Pipeline.signalOn config decide market price indicators) :
      Handling config ttl instant decide s
        (.decisionRequested indicators.symbol market indicators)
        ⟨.ok .advanced, [.signalGenerated indicators.symbol market signal],
          { s.withPrice ttl instant with signals := s.signals ++ [signal] }.withRecent config ttl
            instant⟩
  /-- The cycle is complete. -/
  | completed {symbol market : String} {signal : Signal} :
      Handling config ttl instant decide s (.signalGenerated symbol market signal)
        ⟨.ok .completed, [], s⟩

section Stages

variable {config : Config} {ttl : CacheTtl} {instant : Nat} {decide : DecisionRequest → Decision}
  {s : Slice} {symbol market : String} {indicators : Snapshot}

/-- Where the prices make no snapshot, the cycle ends early. -/
theorem advance_of_early {error : IndicatorError}
    (h : config.lookbacks.compute symbol (Series.trailing config.effectivePriceWindow s.bars) =
      .error error) :
    s.advance config ttl instant decide (.indicatorRequested symbol market) =
      ⟨.ok (.endedEarly error), [], s⟩ := by
  simp only [advance, h]

/-- Where they do, the snapshot is stored, cached and reported. -/
theorem advance_of_computed {snapshot : Snapshot}
    (h : config.lookbacks.compute symbol (Series.trailing config.effectivePriceWindow s.bars) =
      .ok snapshot) :
    s.advance config ttl instant decide (.indicatorRequested symbol market) =
      ⟨.ok .advanced, [.decisionRequested symbol market snapshot],
        { s with
          snapshots := s.snapshots ++ [snapshot]
          cachedSnapshot := some ⟨snapshot, instant + ttl.snapshot.nanos⟩ }⟩ := by
  simp only [advance, h]

/-- A snapshot of another symbol is refused. -/
theorem advance_of_foreign (h : indicators.symbol ≠ symbol) :
    s.advance config ttl instant decide (.decisionRequested symbol market indicators) =
      s.refuse (.foreignSnapshot indicators.symbol symbol) := by
  rw [advance, if_neg h]

/-- Where no price is known, there is no decision. -/
theorem advance_of_unpriced (h : s.knownPrice instant = none) :
    s.advance config ttl instant decide
        (.decisionRequested indicators.symbol market indicators) =
      s.refuse (.noPrice indicators.symbol) := by
  rw [advance, if_pos rfl, h]

/-- Otherwise the signal is stored, cached among the recent ones and reported. -/
theorem advance_of_decided {price : Bar} {signal : Signal}
    (h : s.knownPrice instant = some price)
    (hsignal : signal = Pipeline.signalOn config decide market price indicators) :
    s.advance config ttl instant decide
        (.decisionRequested indicators.symbol market indicators) =
      ⟨.ok .advanced, [.signalGenerated indicators.symbol market signal],
        { s.withPrice ttl instant with signals := s.signals ++ [signal] }.withRecent config ttl
          instant⟩ := by
  rw [advance, if_pos rfl, h, hsignal]

end Stages

/-- There are no other ways. -/
theorem handling (config : Config) (ttl : CacheTtl) (instant : Nat)
    (decide : DecisionRequest → Decision) (s : Slice) (event : Event) :
    Handling config ttl instant decide s event (s.handle config ttl instant decide event) := by
  unfold handle
  cases hobjection : Pipeline.objection? event.symbol event.market s.instrument with
  | some cause =>
      refine .refused fun hdropped => ?_
      rw [hdropped.2] at hobjection
      cases hobjection
  | none =>
      dsimp only
      cases event with
      | priceIngested symbol market => exact .dropped hobjection
      | indicatorRequested symbol market =>
          cases hcompute : config.lookbacks.compute symbol
              (Series.trailing config.effectivePriceWindow s.bars) with
          | error error =>
              rw [advance_of_early hcompute]
              exact .early hcompute
          | ok snapshot =>
              rw [advance_of_computed hcompute]
              exact .computed hcompute
      | decisionRequested symbol market indicators =>
          have hkept : ¬ s.DroppedBy (.decisionRequested symbol market indicators) :=
            fun hdropped => nomatch hdropped.1
          by_cases hsymbol : indicators.symbol = symbol
          · subst hsymbol
            cases hknown : s.knownPrice instant with
            | none =>
                rw [advance_of_unpriced hknown]
                exact .refused hkept
            | some price =>
                rw [advance_of_decided hknown rfl]
                exact .decided hknown rfl
          · rw [advance_of_foreign hsymbol]
            exact .refused hkept
      | signalGenerated symbol market signal => exact .completed

/-! ### Single writes -/

variable {s : Store} {c : Cache} {instant : Nat}

theorem of_appendPrice (bar : Bar) (symbol : String) :
    of (s.appendPrice bar) c symbol =
      if bar.symbol = symbol then
        { of s c bar.symbol with bars := insertBar bar (s.bars bar.symbol) }
      else of s c symbol := by
  unfold of
  rw [Store.bars_appendPrice]
  split
  · rename_i hsame
    rw [hsame]
    rfl
  · rfl

theorem of_appendSnapshot (snapshot : Snapshot) (symbol : String) :
    of (s.appendSnapshot snapshot) c symbol =
      if snapshot.symbol = symbol then
        { of s c snapshot.symbol with snapshots := s.snapshotsOf snapshot.symbol ++ [snapshot] }
      else of s c symbol := by
  unfold of Store.snapshotsOf Store.appendSnapshot
  rw [List.filter_append]
  by_cases h : snapshot.symbol = symbol
  · simp [h, Store.findInstrument, Store.bars, Store.signalsOf]
  · simp [h, Store.findInstrument, Store.bars, Store.signalsOf]

theorem of_appendSignal (signal : Signal) (symbol : String) :
    of (s.appendSignal signal) c symbol =
      if signal.symbol = symbol then
        { of s c signal.symbol with signals := s.signalsOf signal.symbol ++ [signal] }
      else of s c symbol := by
  unfold of Store.signalsOf Store.appendSignal
  rw [List.filter_append]
  by_cases h : signal.symbol = symbol
  · simp [h, Store.findInstrument, Store.bars, Store.snapshotsOf]
  · simp [h, Store.findInstrument, Store.bars, Store.snapshotsOf]

theorem of_invalidate (name symbol : String) :
    of s (c.invalidate name) symbol =
      if name = symbol then
        { of s c name with cachedPrice := none, cachedSnapshot := none, cachedSignals := none }
      else of s c symbol := by
  unfold of Cache.invalidate Slots.drop
  by_cases h : name = symbol <;> simp [h]

theorem of_setPrice (bar : Bar) (symbol : String) :
    of s (c.setPrice instant bar) symbol =
      if bar.symbol = symbol then
        { of s c bar.symbol with cachedPrice := some ⟨bar, instant + c.ttl.price.nanos⟩ }
      else of s c symbol := by
  unfold of Cache.setPrice Slots.put
  by_cases h : bar.symbol = symbol <;> simp [h]

theorem of_setSnapshot (snapshot : Snapshot) (symbol : String) :
    of s (c.setSnapshot instant snapshot) symbol =
      if snapshot.symbol = symbol then
        { of s c snapshot.symbol with
          cachedSnapshot := some ⟨snapshot, instant + c.ttl.snapshot.nanos⟩ }
      else of s c symbol := by
  unfold of Cache.setSnapshot Slots.put
  by_cases h : snapshot.symbol = symbol <;> simp [h]

theorem of_setSignals (name : String) (signals : List Signal) (symbol : String) :
    of s (c.setSignals instant name signals) symbol =
      if name = symbol then
        { of s c name with cachedSignals := some ⟨signals, instant + c.ttl.signals.nanos⟩ }
      else of s c symbol := by
  unfold of Cache.setSignals Slots.put
  by_cases h : name = symbol <;> simp [h]

/-- A snapshot that is stored and cached is in the slice of its symbol only. -/
theorem of_appendSnapshot_setSnapshot (snapshot : Snapshot) (symbol : String) :
    of (s.appendSnapshot snapshot) (c.setSnapshot instant snapshot) symbol =
      if snapshot.symbol = symbol then
        { of s c snapshot.symbol with
          snapshots := s.snapshotsOf snapshot.symbol ++ [snapshot]
          cachedSnapshot := some ⟨snapshot, instant + c.ttl.snapshot.nanos⟩ }
      else of s c symbol := by
  rw [of_setSnapshot, of_appendSnapshot, of_appendSnapshot, if_pos rfl]
  split
  · rfl
  · rfl

/-- A signal that is stored, with recent signals that are cached, is in the slice of its symbol
only. -/
theorem of_appendSignal_setSignals (signal : Signal) (recent : List Signal) (symbol : String) :
    of (s.appendSignal signal) (c.setSignals instant signal.symbol recent) symbol =
      if signal.symbol = symbol then
        { of s c signal.symbol with
          signals := s.signalsOf signal.symbol ++ [signal]
          cachedSignals := some ⟨recent, instant + c.ttl.signals.nanos⟩ }
      else of s c symbol := by
  rw [of_setSignals, of_appendSignal, of_appendSignal, if_pos rfl]
  split
  · rfl
  · rfl

variable {symbol : String}

/-- Bars and cached prices are kept under their own symbol. -/
structure Owned (slice : Slice) (symbol : String) : Prop where
  bars : ∀ bar ∈ slice.bars, bar.symbol = symbol
  cachedPrice : ∀ entry, slice.cachedPrice = some entry → entry.value.symbol = symbol

/-- A price that is known is of the symbol. -/
theorem Owned.symbol_of_knownPrice {slice : Slice} (h : slice.Owned symbol) {price : Bar}
    (hprice : slice.knownPrice instant = some price) : price.symbol = symbol := by
  rw [knownPrice, Option.or_eq_some_iff] at hprice
  rcases hprice with hcached | ⟨-, hstored⟩
  · unfold liveValue? at hcached
    split at hcached
    · rename_i entry hentry
      split at hcached
      · cases hcached
        exact h.cachedPrice entry hentry
      · cases hcached
    · cases hcached
  · exact h.bars price (List.mem_of_getLast? hstored)

end Slice

namespace World

/-- The slice of a symbol in a world. -/
def slice (w : World) (symbol : String) : Slice :=
  .of w.store w.cache symbol

/-- Between two worlds, only the slice of one symbol and the log change, besides what no stage looks
at. -/
structure ChangesOnly (w w' : World) (symbol : String) (published : List Event) (slice : Slice) :
    Prop where
  slices : ∀ other, w'.slice other = if symbol = other then slice else w.slice other
  log : w'.log = w.log ++ published
  ttl : w'.cache.ttl = w.cache.ttl
  primary : w'.primary = w.primary
  faults : w'.faults = w.faults
  instant : w'.clock.instant = w.clock.instant
  readings : w'.clock.readings = w.clock.readings

/-- An attempt on a symbol comes to what a slice says, and changes nothing but the slice of the
symbol and the log. -/
structure Follows {α : Type} (w : World) (x : Attempt α) (symbol : String)
    (handled : Handled α) : Prop where
  result : (w.after x.run).1 = handled.result
  changes : w.ChangesOnly (w.after x.run).2 symbol handled.published handled.slice

variable {α : Type} {w w' : World} {symbol : String}

theorem slice_eq_ite (w : World) (symbol other : String) :
    w.slice other = if symbol = other then w.slice symbol else w.slice other := by
  split
  · rename_i hsame
    rw [hsame]
  · rfl

theorem ChangesOnly.own {published : List Event} {slice : Slice}
    (h : w.ChangesOnly w' symbol published slice) : w'.slice symbol = slice := by
  rw [h.slices, if_pos rfl]

theorem ChangesOnly.other {published : List Event} {slice : Slice}
    (h : w.ChangesOnly w' symbol published slice) {other : String} (hother : other ≠ symbol) :
    w'.slice other = w.slice other := by
  rw [h.slices, if_neg hother.symm]

theorem ChangesOnly.refl (w : World) (symbol : String) :
    w.ChangesOnly w symbol [] (w.slice symbol) :=
  ⟨w.slice_eq_ite symbol, (List.append_nil _).symm, rfl, rfl, rfl, rfl, rfl⟩

/-- What no stage looks at may change besides. -/
theorem ChangesOnly.aside {published : List Event} {slice : Slice}
    (h : w.ChangesOnly w' symbol published slice) (metrics : Option Metrics)
    (asked : List DecisionRequest) (read : Nat) :
    w.ChangesOnly (w'.aside metrics asked read) symbol published slice :=
  ⟨h.slices, h.log, h.ttl, h.primary, h.faults, h.instant, h.readings⟩

/-- An event that is refused changes nothing. -/
theorem Follows.refuse {x : Attempt α} {cause : Malformed}
    (h : w.after x.run = (.error (.malformed cause), w)) :
    w.Follows x symbol ((w.slice symbol).refuse cause) :=
  ⟨by rw [h]; rfl, by rw [h]; exact .refl w symbol⟩

/-- What an attempt comes to is its result and the world it leaves. -/
theorem Follows.of_after {x : Attempt α} {result : Except PipelineError α}
    {published : List Event} {slice : Slice} (h : w.after x.run = (result, w'))
    (hchanges : w.ChangesOnly w' symbol published slice) :
    w.Follows x symbol ⟨result, published, slice⟩ :=
  ⟨by rw [h], by rw [h]; exact hchanges⟩

/-- The lookup of the latest price changes the slice of its symbol only. -/
theorem slice_cacheWithPrice (howned : (w.slice symbol).Owned symbol) (other : String) :
    Slice.of w.store (w.cacheWithPrice symbol) other =
      if symbol = other then (w.slice symbol).withPrice w.cache.ttl w.clock.instant
      else w.slice other := by
  have hcached : w.cache.prices.get? w.clock.instant symbol =
      liveValue? (w.slice symbol).cachedPrice w.clock.instant := rfl
  have hstored : w.store.latestPrice symbol = (w.slice symbol).bars.getLast? := rfl
  unfold cacheWithPrice Slice.withPrice
  rw [hcached, hstored]
  cases liveValue? (w.slice symbol).cachedPrice w.clock.instant with
  | some bar => exact w.slice_eq_ite symbol other
  | none =>
      cases hlast : (w.slice symbol).bars.getLast? with
      | none => exact w.slice_eq_ite symbol other
      | some bar =>
          obtain rfl : bar.symbol = symbol := howned.bars bar (List.mem_of_getLast? hlast)
          exact Slice.of_setPrice bar other

theorem ttl_cacheWithPrice (w : World) (symbol : String) :
    (w.cacheWithPrice symbol).ttl = w.cache.ttl := by
  unfold cacheWithPrice
  split <;> rfl

/-- What a decision leaves behind, besides what no stage looks at: the signal, the price it was made
on, and the recent signals. -/
theorem changesOnly_of_signal (config : Config) (signal : Signal)
    (howned : (w.slice signal.symbol).Owned signal.symbol) (published : List Event) :
    w.ChangesOnly
      { w with
        store := w.store.appendSignal signal
        cache := (w.cacheWithPrice signal.symbol).setSignals w.clock.instant signal.symbol
          ((w.store.appendSignal signal).recentSignals signal.symbol config.recentSignals)
        log := w.log ++ published }
      signal.symbol published
      ({ (w.slice signal.symbol).withPrice w.cache.ttl w.clock.instant with
        signals := w.store.signalsOf signal.symbol ++ [signal] }.withRecent config w.cache.ttl
          w.clock.instant) := by
  have hsignals : (w.store.appendSignal signal).signalsOf signal.symbol =
      w.store.signalsOf signal.symbol ++ [signal] := by
    simp [Store.signalsOf, Store.appendSignal, List.filter_append]
  refine ⟨fun other => ?_, rfl, ttl_cacheWithPrice w signal.symbol, rfl, rfl, rfl, rfl⟩
  refine (Slice.of_appendSignal_setSignals signal _ other).trans ?_
  rw [slice_cacheWithPrice howned, slice_cacheWithPrice howned, if_pos rfl,
    ttl_cacheWithPrice, Store.recentSignals, hsignals]
  split
  · rfl
  · rfl

end World

/-! ### Sources of decisions -/

/-- What a source decides is about the symbol it was asked about. -/
def DecisionSource.NamesSymbols (source : DecisionSource) : Prop :=
  ∀ asked now request decision, (source.answer asked now request).result = .ok decision →
    decision.symbol = request.symbol

/-- What is decided in a world is about the symbol that is asked about. -/
def World.NamesSymbols (w : World) : Prop :=
  ∀ source, w.primary = some source → source.NamesSymbols

theorem World.symbol_decisionOn {w : World} (h : w.NamesSymbols) (request : DecisionRequest) :
    (w.decisionOn request).symbol = request.symbol := by
  unfold decisionOn
  split
  · rfl
  · rename_i source hprimary
    split
    · rename_i decision hdecision
      exact h source hprimary _ _ request decision hdecision
    · rfl

namespace Pipeline

variable {w : World} {config : Config} {symbol market : String}

/-! ### Stages -/

/-- A stage follows the slice of its symbol where what comes after the validation does. -/
theorem follows_of_validated {x : Attempt Outcome} {decide : DecisionRequest → Decision}
    (event : Event) {result : Except PipelineError Outcome} {w' : World} {handled : Handled Outcome}
    (hafter : w.after x.run =
      match objection? event.symbol event.market (w.store.findInstrument event.symbol) with
      | some cause => (.error (.malformed cause), w)
      | none => (result, w'))
    (hadvance : (w.slice event.symbol).advance config w.cache.ttl w.clock.instant decide event =
      handled)
    (hresult : result = handled.result)
    (hchanges : w.ChangesOnly w' event.symbol handled.published handled.slice) :
    w.Follows x event.symbol
      ((w.slice event.symbol).handle config w.cache.ttl w.clock.instant decide event) := by
  unfold Slice.handle
  rw [show (w.slice event.symbol).instrument = w.store.findInstrument event.symbol from rfl]
  cases hobjection : objection? event.symbol event.market
      (w.store.findInstrument event.symbol) with
  | some cause =>
      rw [hobjection] at hafter
      exact .refuse hafter
  | none =>
      rw [hobjection] at hafter
      dsimp only
      rw [hadvance]
      exact ⟨by rw [hafter]; exact hresult, by rw [hafter]; exact hchanges⟩

theorem onPriceIngested_follows (h : w.Calm) (decide : DecisionRequest → Decision) :
    w.Follows (onPriceIngested symbol market) symbol
      ((w.slice symbol).handle config w.cache.ttl w.clock.instant decide
        (.priceIngested symbol market)) :=
  follows_of_validated (.priceIngested symbol market) (after_onPriceIngested h) rfl rfl
    ⟨Slice.of_invalidate symbol, rfl, rfl, rfl, rfl, rfl, rfl⟩

theorem onIndicatorRequested_follows (h : w.Calm) (decide : DecisionRequest → Decision) :
    w.Follows (onIndicatorRequested config symbol market) symbol
      ((w.slice symbol).handle config w.cache.ttl w.clock.instant decide
        (.indicatorRequested symbol market)) := by
  obtain ⟨metrics, hafter⟩ := after_onIndicatorRequested h config symbol market
  cases hcompute : config.lookbacks.compute symbol
      (w.store.recentPrices symbol config.effectivePriceWindow) with
  | error error =>
      simp only [hcompute] at hafter
      exact follows_of_validated (.indicatorRequested symbol market) hafter
        (Slice.advance_of_early hcompute) rfl
        ((World.ChangesOnly.refl w symbol).aside metrics w.asked _)
  | ok snapshot =>
      simp only [hcompute] at hafter
      obtain rfl := symbol_of_compute hcompute
      exact follows_of_validated (.indicatorRequested snapshot.symbol market) hafter
        (Slice.advance_of_computed hcompute) rfl
        ⟨Slice.of_appendSnapshot_setSnapshot snapshot, rfl, rfl, rfl, rfl, rfl, rfl⟩

/-- The signal of a decision on a price is of the price's symbol. -/
theorem symbol_signalOn {decide : DecisionRequest → Decision}
    (hnames : ∀ request, (decide request).symbol = request.symbol) (price : Bar)
    (indicators : Snapshot) :
    (signalOn config decide market price indicators).symbol = price.symbol :=
  hnames _

theorem onDecisionRequested_follows (h : w.Calm) (howned : (w.slice symbol).Owned symbol)
    (hnames : ∀ request, (w.decisionOn request).symbol = request.symbol)
    (indicators : Snapshot) :
    w.Follows (onDecisionRequested config symbol market indicators) symbol
      ((w.slice symbol).handle config w.cache.ttl w.clock.instant w.decisionOn
        (.decisionRequested symbol market indicators)) := by
  obtain ⟨metrics, read, hafter⟩ :=
    after_onDecisionRequested h config symbol market indicators
  by_cases hsymbol : indicators.symbol = symbol
  · subst hsymbol
    simp only [if_true] at hafter
    cases hknown : w.knownPrice indicators.symbol with
    | none =>
        simp only [hknown] at hafter
        exact follows_of_validated (.decisionRequested _ market indicators) hafter
          (Slice.advance_of_unpriced hknown) rfl (.refl w _)
    | some price =>
        simp only [hknown] at hafter
        have hsame : (signalOn config w.decisionOn market price indicators).symbol =
            indicators.symbol :=
          (symbol_signalOn hnames price indicators).trans (howned.symbol_of_knownPrice hknown)
        have hchanges := World.changesOnly_of_signal config
          (signalOn config w.decisionOn market price indicators) (by rw [hsame]; exact howned)
          [.signalGenerated indicators.symbol market
            (signalOn config w.decisionOn market price indicators)]
        rw [hsame] at hchanges
        exact follows_of_validated (.decisionRequested _ market indicators) hafter
          (Slice.advance_of_decided hknown rfl) rfl (hchanges.aside metrics _ read)
  · simp only [hsymbol, if_false] at hafter
    exact follows_of_validated (.decisionRequested symbol market indicators) hafter
      (Slice.advance_of_foreign hsymbol) rfl (.refl w symbol)

theorem onSignalGenerated_follows (h : w.Calm) (decide : DecisionRequest → Decision)
    (signal : Signal) :
    w.Follows (onSignalGenerated symbol market) symbol
      ((w.slice symbol).handle config w.cache.ttl w.clock.instant decide
        (.signalGenerated symbol market signal)) :=
  follows_of_validated (.signalGenerated symbol market signal) (after_onSignalGenerated h) rfl rfl
    (.refl w symbol)

theorem stageOf_follows (h : w.Calm) (hnames : w.NamesSymbols) (config : Config) (event : Event)
    (howned : (w.slice event.symbol).Owned event.symbol) :
    w.Follows (stageOf config event) event.symbol
      ((w.slice event.symbol).handle config w.cache.ttl w.clock.instant w.decisionOn event) := by
  cases event with
  | priceIngested symbol market =>
      dsimp only [stageOf, Event.symbol]
      exact onPriceIngested_follows h _
  | indicatorRequested symbol market =>
      dsimp only [stageOf, Event.symbol]
      exact onIndicatorRequested_follows h _
  | decisionRequested symbol market indicators =>
      dsimp only [stageOf, Event.symbol]
      exact onDecisionRequested_follows h howned (World.symbol_decisionOn hnames) indicators
  | signalGenerated symbol market signal =>
      dsimp only [stageOf, Event.symbol]
      exact onSignalGenerated_follows h _ signal

/-! ### Operations on a symbol -/

/-- Handling an event is what the slice of its symbol says, and leaves all other slices alone. -/
theorem handle_follows (h : w.Calm) (hnames : w.NamesSymbols) (config : Config) (event : Event)
    (howned : (w.slice event.symbol).Owned event.symbol) :
    w.Follows (handle config event) event.symbol
      ((w.slice event.symbol).handle config w.cache.ttl w.clock.instant w.decisionOn event) := by
  let counted := w.record (.stageEvents event.stage.queue 1)
  have hstage : counted.Follows (stageOf config event) event.symbol
      ((w.slice event.symbol).handle config w.cache.ttl w.clock.instant w.decisionOn event) :=
    stageOf_follows (w := counted) h hnames config event howned
  obtain ⟨hresult, hchanges⟩ := hstage
  have hafter := @after_handle config w event
  exact ⟨by rw [hafter]; exact hresult, by
    rw [hafter]
    exact ⟨hchanges.slices, hchanges.log, hchanges.ttl, hchanges.primary, hchanges.faults,
      hchanges.instant, hchanges.readings⟩⟩

theorem recordPrice_follows (h : w.Calm) (bar : Bar) :
    w.Follows (recordPrice bar) bar.symbol ((w.slice bar.symbol).record bar) := by
  have hafter := after_recordPrice h bar
  unfold Slice.record
  rw [show (w.slice bar.symbol).instrument = w.store.findInstrument bar.symbol from rfl]
  cases hobjection : objection? bar.symbol bar.market (w.store.findInstrument bar.symbol) with
  | some cause =>
      rw [hobjection] at hafter
      exact .refuse hafter
  | none =>
      rw [hobjection] at hafter
      exact .of_after hafter ⟨Slice.of_appendPrice bar, rfl, rfl, rfl, rfl, rfl, rfl⟩

theorem latestPrice_follows (h : w.Calm) (howned : (w.slice symbol).Owned symbol) :
    w.Follows (latestPrice symbol) symbol
      ((w.slice symbol).lookUpPrice w.cache.ttl w.clock.instant) :=
  .of_after (after_latestPrice h)
    ⟨World.slice_cacheWithPrice howned, (List.append_nil _).symm, w.ttl_cacheWithPrice symbol, rfl,
      rfl, rfl, rfl⟩

theorem recentSignals_follows (h : w.Calm) (config : Config) (symbol : String) :
    w.Follows (recentSignals config symbol) symbol
      ((w.slice symbol).lookUpSignals config w.cache.ttl w.clock.instant) := by
  have hafter := @after_recentSignals w config symbol h
  have hcached : w.cache.signals.get? w.clock.instant symbol =
      liveValue? (w.slice symbol).cachedSignals w.clock.instant := rfl
  unfold Slice.lookUpSignals
  rw [hcached] at hafter
  cases hlive : liveValue? (w.slice symbol).cachedSignals w.clock.instant with
  | some signals =>
      rw [hlive] at hafter
      exact .of_after hafter (.refl w symbol)
  | none =>
      rw [hlive] at hafter
      exact .of_after hafter
        ⟨Slice.of_setSignals symbol _, (List.append_nil _).symm, rfl, rfl, rfl, rfl, rfl⟩

end Pipeline

end MarketSignals
