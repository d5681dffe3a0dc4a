import Mathlib.Logic.Relation
import MarketSignals.Proofs.Pipeline.Redelivery
import MarketSignals.Proofs.Pipeline.Running
import MarketSignals.Proofs.Pipeline.Slice
import MarketSignals.Proofs.Pipeline.Sweep

/-!
# Coherence of the cache

Where operations do not overlap and nothing fails, what is cached of a symbol is what the store says
of it. The one exception is a price: a new one is in the store before the event that reports it
drops the cached one, so a cached price may be behind while such an event is queued.

The invariant speaks of every entry, expired or not, so it does not matter when time passes.

## Main results

* `Turn`: the turns of a pipeline whose operations do not overlap and whose events wait in a queue.
* `Slice.Coherent`: what is cached of one symbol is what is stored of it, kept by every stage.
* `World.Coherent.turn`: every turn keeps all symbols coherent.
* `cache_coherent`: so what is there in the cache is what the store says, in every state.
-/

namespace MarketSignals

/-! ### One symbol -/

namespace Slice

/-- What is cached of a symbol, expired or not, is what is stored of it; a price may be behind where
an event that drops it is awaited. -/
structure Coherent (config : Config) (awaited : Prop) (s : Slice) : Prop where
  signals : ∀ entry, s.cachedSignals = some entry → entry.value = s.recent config
  snapshot : ∀ entry, s.cachedSnapshot = some entry → s.snapshots.getLast? = some entry.value
  price : ∀ entry, s.cachedPrice = some entry → s.bars.getLast? = some entry.value ∨ awaited

variable {config : Config} {ttl : CacheTtl} {instant : Nat} {decide : DecisionRequest → Decision}
  {awaited awaited' : Prop} {s : Slice} {symbol : String}

theorem Coherent.mono (h : s.Coherent config awaited) (hawaited : awaited → awaited') :
    s.Coherent config awaited' :=
  ⟨h.signals, h.snapshot, fun entry hentry => (h.price entry hentry).imp_right hawaited⟩

/-- A price that is looked up is the stored one. -/
theorem Coherent.withPrice (h : s.Coherent config awaited) :
    (s.withPrice ttl instant).Coherent config awaited := by
  rcases s.withPrice_cases ttl instant with hsame | ⟨bar, hlast, hcached⟩
  · rw [hsame]
    exact h
  · rw [hcached]
    refine ⟨h.signals, h.snapshot, fun entry hentry => .inl ?_⟩
    cases hentry
    exact hlast

/-- Whatever signals are added, the recent ones of all are cached. -/
theorem Coherent.withRecent (h : s.Coherent config awaited) (signals : List Signal) :
    ({ s with signals }.withRecent config ttl instant).Coherent config awaited := by
  refine ⟨fun entry hentry => ?_, h.snapshot, h.price⟩
  cases hentry
  rfl

/-- A stage keeps a symbol coherent; where it drops what is cached, nothing is awaited any more. -/
theorem Coherent.handle (h : s.Coherent config awaited) (event : Event)
    (hawaited : awaited → awaited' ∨ s.DroppedBy event) :
    (s.handle config ttl instant decide event).slice.Coherent config awaited' := by
  have hkept (hkept : ¬ s.DroppedBy event) : s.Coherent config awaited' :=
    h.mono fun hawait => (hawaited hawait).resolve_right hkept
  have hway := s.handling config ttl instant decide event
  generalize s.handle config ttl instant decide event = handled at hway ⊢
  cases hway with
  | refused hrefused => exact hkept hrefused
  | dropped hsound => exact ⟨by simp, by simp, by simp⟩
  | early hcompute => exact hkept fun hdropped => nomatch hdropped.1
  | computed hcompute =>
      have h := hkept fun hdropped => nomatch hdropped.1
      refine ⟨h.signals, fun entry hentry => ?_, h.price⟩
      cases hentry
      exact List.getLast?_concat
  | decided hknown hsignal =>
      have h := hkept fun hdropped => nomatch hdropped.1
      exact h.withPrice.withRecent _
  | completed => exact hkept fun hdropped => nomatch hdropped.1

/-- A stage leaves the instrument as it is. -/
theorem instrument_handle (event : Event) :
    (s.handle config ttl instant decide event).slice.instrument = s.instrument := by
  have hway := s.handling config ttl instant decide event
  generalize s.handle config ttl instant decide event = handled at hway ⊢
  cases hway with
  | decided => exact instrument_withPrice s ttl instant
  | refused | dropped | early | computed | completed => rfl

/-- No stage reports a price. -/
theorem published_handle {event e : Event}
    (he : e ∈ (s.handle config ttl instant decide event).published) :
    e.stage ≠ .priceIngested := by
  have hway := s.handling config ttl instant decide event
  generalize s.handle config ttl instant decide event = handled at hway he
  cases hway with
  | refused | early | completed => simp [refuse] at he
  | dropped | computed | decided => simp_all [Event.stage]

theorem Owned.withPrice (h : s.Owned symbol) : (s.withPrice ttl instant).Owned symbol := by
  rcases s.withPrice_cases ttl instant with hsame | ⟨bar, hlast, hcached⟩
  · rw [hsame]
    exact h
  · rw [hcached]
    refine ⟨h.bars, fun entry hentry => ?_⟩
    cases hentry
    exact h.bars bar (List.mem_of_getLast? hlast)

/-- A stage caches prices under their own symbol. -/
theorem Owned.handle (h : s.Owned symbol) (event : Event) :
    (s.handle config ttl instant decide event).slice.Owned symbol := by
  have hway := s.handling config ttl instant decide event
  generalize s.handle config ttl instant decide event = handled at hway ⊢
  cases hway with
  | refused | early | completed => exact h
  | dropped => exact ⟨h.bars, by simp⟩
  | computed => exact ⟨h.bars, h.cachedPrice⟩
  | decided => exact ⟨h.withPrice.bars, h.withPrice.cachedPrice⟩

theorem Owned.record (h : s.Owned symbol) {bar : Bar} (hbar : bar.symbol = symbol) :
    (s.record bar).slice.Owned symbol := by
  unfold Slice.record
  split
  · exact h
  · refine ⟨fun b hb => ?_, h.cachedPrice⟩
    rcases mem_of_mem_insertBar hb with rfl | hold
    · exact hbar
    · exact h.bars b hold

end Slice

/-- Where there is no instrument, something speaks against every event. -/
theorem Pipeline.objection?_ne_none {symbol market : String} :
    Pipeline.objection? symbol market none ≠ none := by
  unfold objection?
  split <;> simp

/-! ### All symbols -/

namespace World

/-- An event that drops the cached price of a symbol is queued. -/
def Awaits (w : World) (symbol : String) : Prop :=
  ∃ market, .priceIngested symbol market ∈ w.log

theorem ChangesOnly.awaits {w w' : World} {symbol other : String} {published : List Event}
    {slice : Slice} (h : w.ChangesOnly w' symbol published slice) (hawaits : w.Awaits other) :
    w'.Awaits other := by
  obtain ⟨market, hmem⟩ := hawaits
  refine ⟨market, ?_⟩
  rw [h.log]
  exact List.mem_append_left _ hmem

/-- Nothing fails, and what is cached of every symbol is what is stored of it, but for prices that
queued events drop; these events fit the instruments they name. -/
structure Coherent (config : Config) (w : World) : Prop where
  calm : w.Calm
  names : w.NamesSymbols
  owned : ∀ symbol, (w.slice symbol).Owned symbol
  cached : ∀ symbol, (w.slice symbol).Coherent config (w.Awaits symbol)
  sound : ∀ symbol market, .priceIngested symbol market ∈ w.log →
    Pipeline.objection? symbol market (w.slice symbol).instrument = none

variable {config : Config} {w w' : World} {symbol : String} {slice : Slice}

/-- What an operation on one symbol changes keeps all symbols coherent, if it leaves its own so and
takes no event of another symbol out of the queue. -/
theorem Coherent.of_changesOnly (h : w.Coherent config) {queue published : List Event}
    (hqueue : queue ⊆ w.log) (hkept : ∀ e ∈ w.log, e ∈ queue ∨ e.symbol = symbol)
    (hchanges : { w with log := queue }.ChangesOnly w' symbol published slice)
    (howned : slice.Owned symbol) (hcached : slice.Coherent config (w'.Awaits symbol))
    (hinstrument : slice.instrument = (w.slice symbol).instrument)
    (hpublished : ∀ name market, .priceIngested name market ∈ published →
      Pipeline.objection? name market (w.slice name).instrument = none) : w'.Coherent config where
  calm := hchanges.faults.trans h.calm
  names := by
    rw [NamesSymbols, hchanges.primary]
    exact h.names
  owned other := by
    rw [hchanges.slices]
    split
    · rename_i hsame
      exact hsame ▸ howned
    · exact h.owned other
  cached other := by
    rw [hchanges.slices]
    split
    · rename_i hsame
      exact hsame ▸ hcached
    · rename_i hother
      refine (h.cached other).mono fun ⟨market, hmem⟩ => ⟨market, ?_⟩
      rw [hchanges.log]
      exact List.mem_append_left _ ((hkept _ hmem).resolve_right (Ne.symm hother))
  sound name market hmem := by
    have hsame : (w'.slice name).instrument = (w.slice name).instrument := by
      rw [hchanges.slices]
      split
      · rename_i hsame
        rw [← hsame, hinstrument]
      · rfl
    rw [hsame]
    rw [hchanges.log] at hmem
    rcases List.mem_append.mp hmem with hold | hnew
    · exact h.sound name market (hqueue hold)
    · exact hpublished name market hnew

/-- What no stage looks at may change besides. -/
theorem Coherent.aside (h : w.Coherent config) (metrics : Option Metrics)
    (asked : List DecisionRequest) (read : Nat) : (w.aside metrics asked read).Coherent config :=
  ⟨h.calm, h.names, h.owned, h.cached, h.sound⟩

theorem Coherent.pass (h : w.Coherent config) (clock : Clock) :
    { w with clock }.Coherent config :=
  ⟨h.calm, h.names, h.owned, h.cached, h.sound⟩

/-- A new instrument leaves everything coherent. -/
theorem Coherent.register (h : w.Coherent config) {instrument : Instrument}
    (hnew : w.store.findInstrument instrument.symbol = none) :
    { w with store := w.store.addInstrument instrument }.Coherent config where
  calm := h.calm
  names := h.names
  owned symbol := ⟨(h.owned symbol).bars, (h.owned symbol).cachedPrice⟩
  cached symbol := ⟨(h.cached symbol).signals, (h.cached symbol).snapshot, (h.cached symbol).price⟩
  sound symbol market hmem := by
    have hsound := h.sound symbol market hmem
    show Pipeline.objection? symbol market
      ((w.store.instruments.insert instrument.symbol instrument).get? symbol) = none
    rw [Keyed.get?_insert]
    split
    · rename_i hsame
      rw [show (w.slice symbol).instrument = none from hsame ▸ hnew] at hsound
      exact absurd hsound Pipeline.objection?_ne_none
    · exact hsound

/-- Handling an event keeps all symbols coherent, whether or not it was taken out of the queue. -/
theorem Coherent.handle (h : w.Coherent config) (event : Event) {queue : List Event}
    (hqueue : queue ⊆ w.log) (hkept : ∀ e ∈ w.log, e ∈ queue ∨ e = event) :
    ({ w with log := queue }.after (Pipeline.handle config event).run).2.Coherent config := by
  have hfollows := Pipeline.handle_follows (w := { w with log := queue }) h.calm h.names config
    event (h.owned event.symbol)
  refine h.of_changesOnly hqueue (fun e he => (hkept e he).imp_right (congrArg Event.symbol))
    hfollows.changes ((h.owned event.symbol).handle event) ?_ (Slice.instrument_handle event)
    fun name market hmem => absurd rfl (Slice.published_handle hmem)
  -- An event that drops the price is still queued, or it is the one handled here. The latter fits
  -- its instrument, so it is not refused and the price is dropped.
  refine (h.cached event.symbol).handle event fun ⟨market, hmem⟩ => ?_
  rcases hkept _ hmem with hqueued | hevent
  · exact .inl (hfollows.changes.awaits ⟨market, hqueued⟩)
  · have hsound := h.sound _ market hmem
    have hmarket : market = event.market := congrArg Event.market hevent
    rw [hmarket] at hsound
    exact .inr ⟨(congrArg Event.stage hevent).symm, hsound⟩

/-- Recording a price keeps all symbols coherent: the event that drops the cached price is then
queued. -/
theorem Coherent.record (h : w.Coherent config) (bar : Bar) :
    (w.after (Pipeline.recordPrice bar).run).2.Coherent config := by
  have hfollows := Pipeline.recordPrice_follows h.calm bar
  have howned := (h.owned bar.symbol).record rfl
  have hcached := h.cached bar.symbol
  unfold Slice.record at hfollows howned
  cases hobjection : Pipeline.objection? bar.symbol bar.market (w.slice bar.symbol).instrument with
  | some cause =>
      rw [hobjection] at hfollows
      exact h.of_changesOnly (fun _ => id) (fun _ => .inl) hfollows.changes (h.owned bar.symbol)
        (hcached.mono hfollows.changes.awaits) rfl (by simp [Slice.refuse])
  | none =>
      rw [hobjection] at hfollows howned
      have hawaited : (w.after (Pipeline.recordPrice bar).run).2.Awaits bar.symbol := by
        refine ⟨bar.market, ?_⟩
        rw [hfollows.changes.log]
        exact List.mem_append_right _ List.mem_cons_self
      refine h.of_changesOnly (fun _ => id) (fun _ => .inl) hfollows.changes howned
        ⟨hcached.signals, hcached.snapshot, fun _ _ => .inr hawaited⟩ rfl fun name market hmem => ?_
      cases List.mem_singleton.mp hmem
      exact hobjection

theorem Coherent.latestPrice (h : w.Coherent config) (symbol : String) :
    (w.after (Pipeline.latestPrice symbol).run).2.Coherent config := by
  have hfollows := Pipeline.latestPrice_follows h.calm (h.owned symbol)
  exact h.of_changesOnly (fun _ => id) (fun _ => .inl) hfollows.changes (h.owned symbol).withPrice
    ((h.cached symbol).mono hfollows.changes.awaits).withPrice
    (Slice.instrument_withPrice _ _ _) (by simp [Slice.lookUpPrice])

theorem Coherent.recentSignals (h : w.Coherent config) (symbol : String) :
    (w.after (Pipeline.recentSignals config symbol).run).2.Coherent config := by
  have hfollows := Pipeline.recentSignals_follows h.calm config symbol
  have howned := h.owned symbol
  have hcached := h.cached symbol
  unfold Slice.lookUpSignals at hfollows
  cases hlive : liveValue? (w.slice symbol).cachedSignals w.clock.instant with
  | some signals =>
      rw [hlive] at hfollows
      exact h.of_changesOnly (fun _ => id) (fun _ => .inl) hfollows.changes howned
        (hcached.mono hfollows.changes.awaits) rfl (by simp)
  | none =>
      rw [hlive] at hfollows
      exact h.of_changesOnly (fun _ => id) (fun _ => .inl) hfollows.changes
        ⟨howned.bars, howned.cachedPrice⟩
        ((hcached.mono hfollows.changes.awaits).withRecent (w.slice symbol).signals) rfl (by simp)

/-- A refresh only adds to the queue. -/
theorem Coherent.refresh (h : w.Coherent config) :
    (w.after Pipeline.refreshActive.run).2.Coherent config := by
  rw [Pipeline.after_refreshActive h.calm]
  refine ⟨h.calm, h.names, h.owned, fun symbol => ?_, fun symbol market hmem => ?_⟩
  · exact (h.cached symbol).mono fun ⟨market, hmem⟩ => ⟨market, List.mem_append_left _ hmem⟩
  · rcases List.mem_append.mp hmem with hold | hnew
    · exact h.sound symbol market hold
    · simp [Pipeline.requests] at hnew

end World

namespace Pipeline

variable {config : Config} {w w' : World}

/-! ### Turns -/

/-- A turn of a pipeline whose operations do not overlap and whose published events wait in a queue
until they are handled. -/
inductive Turn (config : Config) : World → World → Prop
  /-- An instrument is registered under a new symbol. -/
  | register (w : World) (instrument : Instrument)
      (hnew : w.store.findInstrument instrument.symbol = none) :
      Turn config w { w with store := w.store.addInstrument instrument }
  /-- An operation is carried out, from its first call to its last. -/
  | perform (w : World) (operation : Operation) (hkeeps : ∀ now, operation ≠ .prune now) :
      Turn config w (w.after (operation.process config)).2
  /-- An event is taken out of the queue and handled. -/
  | take (w : World) (before after : List Event) (event : Event) (operation : Operation)
      (hhandles : operation = .handle event ∨ operation = .deliver event) :
      Turn config { w with log := before ++ event :: after }
        ({ w with log := before ++ after }.after (operation.process config)).2
  /-- Time passes. -/
  | pass (w : World) (later : Nat) (hlater : w.clock.instant ≤ later) :
      Turn config w { w with clock := { w.clock with instant := later } }

/-- The process of an operation leaves the world that the operation leaves. -/
theorem after_forget {α : Type} (w : World) (p : Process α) :
    (w.after (do let _ ← p; pure ())).2 = (w.after p).2 := by
  rw [World.after, Process.run_bind]
  rfl

end Pipeline

namespace World

open Pipeline

variable {config : Config} {w w' : World}

/-- Handling an event that may have been taken out of the queue leaves all symbols coherent,
whoever handles it. -/
theorem Coherent.handled (h : w.Coherent config) {event : Event} {queue : List Event}
    (hqueue : queue ⊆ w.log) (hkept : ∀ e ∈ w.log, e ∈ queue ∨ e = event) {operation : Operation}
    (hhandles : operation = .handle event ∨ operation = .deliver event) :
    ({ w with log := queue }.after (operation.process config)).2.Coherent config := by
  have hhandled := h.handle event hqueue hkept
  rcases hhandles with rfl | rfl
  · rw [Operation.process, after_forget]
    exact hhandled
  · obtain ⟨-, metrics, hafter⟩ := after_deliver config event { w with log := queue }
    rw [Operation.process, after_forget, hafter]
    exact hhandled.aside metrics _ _

/-- Every turn keeps all symbols coherent. -/
theorem Coherent.turn (h : w.Coherent config) (hturn : Turn config w w') :
    w'.Coherent config := by
  cases hturn with
  | register _ instrument hnew => exact h.register hnew
  | perform _ operation hkeeps =>
      cases operation with
      | record bar => rw [Operation.process, after_forget]; exact h.record bar
      | handle event => exact h.handled (fun _ => id) (fun _ => .inl) (.inl rfl)
      | deliver event => exact h.handled (fun _ => id) (fun _ => .inl) (.inr rfl)
      | refresh => rw [Operation.process, after_forget]; exact h.refresh
      | latestPrice symbol => rw [Operation.process, after_forget]; exact h.latestPrice symbol
      | recentSignals symbol => rw [Operation.process, after_forget]; exact h.recentSignals symbol
      | prune now => exact absurd rfl (hkeeps now)
  | take v before after event operation hhandles =>
      have hqueue : before ++ after ⊆ before ++ event :: after :=
        ((List.sublist_cons_self event after).append_left before).subset
      have hkept : ∀ e ∈ before ++ event :: after, e ∈ before ++ after ∨ e = event := by
        intro e he
        simp only [List.mem_append, List.mem_cons] at he ⊢
        tauto
      exact h.handled hqueue hkept hhandles
  | pass _ later hlater => exact h.pass _

/-- A pipeline that starts with nothing is coherent. -/
theorem coherent_of_empty (hstore : w.store = {}) (hcache : w.cache = { ttl := w.cache.ttl })
    (hlog : w.log = []) (hcalm : w.Calm) (hnames : w.NamesSymbols) : w.Coherent config where
  calm := hcalm
  names := hnames
  owned symbol := by
    rw [slice, hstore, hcache]
    exact ⟨by simp [Slice.of], by simp [Slice.of]⟩
  cached symbol := by
    rw [slice, hcache]
    exact ⟨by simp [Slice.of], by simp [Slice.of], by simp [Slice.of]⟩
  sound symbol market hmem := by
    rw [hlog] at hmem
    cases hmem

end World

/-- A value that is there is that of an entry. -/
theorem exists_of_liveValue? {α : Type} {entry : Option (Entry α)} {instant : Nat} {value : α}
    (h : liveValue? entry instant = some value) : ∃ e, entry = some e ∧ e.value = value := by
  unfold liveValue? at h
  split at h
  · rename_i e
    split at h
    · exact ⟨e, rfl, Option.some.inj h⟩
    · cases h
  · cases h

namespace Pipeline

/-- **The cache is coherent.** In every state that a pipeline comes to from nothing in turns, where
no operation prunes and nothing fails: the cached signals of a symbol that are there are the recent
ones that are stored, the cached snapshot is the newest one, and the cached price is the latest one,
unless an event about a price of the symbol is still queued. -/
theorem cache_coherent {config : Config} {w w' : World} (hstore : w.store = {})
    (hcache : w.cache = { ttl := w.cache.ttl }) (hlog : w.log = []) (hcalm : w.Calm)
    (hnames : w.NamesSymbols) (h : Relation.ReflTransGen (Turn config) w w') (symbol : String) :
    (∀ signals, w'.cache.signals.get? w'.clock.instant symbol = some signals →
      signals = w'.store.recentSignals symbol config.recentSignals) ∧
    (∀ snapshot, w'.cache.snapshots.get? w'.clock.instant symbol = some snapshot →
      (w'.store.snapshotsOf symbol).getLast? = some snapshot) ∧
    ∀ bar, w'.cache.prices.get? w'.clock.instant symbol = some bar →
      w'.store.latestPrice symbol = some bar ∨ w'.Awaits symbol := by
  have hcoherent : w'.Coherent config := by
    induction h with
    | refl => exact World.coherent_of_empty hstore hcache hlog hcalm hnames
    | tail _ hturn ih => exact ih.turn hturn
  have hcached := hcoherent.cached symbol
  refine ⟨fun signals hlive => ?_, fun snapshot hlive => ?_, fun bar hlive => ?_⟩
  · obtain ⟨entry, hentry, rfl⟩ := exists_of_liveValue? hlive
    exact hcached.signals entry hentry
  · obtain ⟨entry, hentry, rfl⟩ := exists_of_liveValue? hlive
    exact hcached.snapshot entry hentry
  · obtain ⟨entry, hentry, rfl⟩ := exists_of_liveValue? hlive
    exact hcached.price entry hentry

/-- The bar that a day opens with. -/
def openingBar : Bar :=
  ⟨"AAPL", "NASDAQ", 10, 11, 9, 10, 1000, 0, .epoch⟩

/-- A bar of the next second. -/
def nextBar : Bar :=
  { openingBar with close := 11, time := ⟨1, 0, by decide⟩ }

/-- A world with nothing in it. -/
def nothing : World where
  clock := { readings := fun _ => .epoch }

/-- A world with one instrument and its first bar, which was looked up after its event was
handled. -/
def priced : World :=
  { nothing with
    store := (({} : Store).addInstrument ⟨"AAPL", "NASDAQ", "", true⟩).appendPrice openingBar
    cache := (({} : Cache).invalidate "AAPL").setPrice 0 openingBar
    log := [.indicatorRequested "AAPL" "NASDAQ"] }

/-- That world later, with one more bar. -/
def behind : World :=
  { priced with
    store := priced.store.appendPrice nextBar
    log := [.indicatorRequested "AAPL" "NASDAQ", .priceIngested "AAPL" "NASDAQ"]
    clock := { priced.clock with instant := 1 } }

theorem turns_priced : Relation.ReflTransGen (Turn {}) nothing priced := by
  let opened : World := { nothing with
    store := ({} : Store).addInstrument ⟨"AAPL", "NASDAQ", "", true⟩ }
  let recorded : World := { opened with
    store := opened.store.appendPrice openingBar
    log := [.priceIngested "AAPL" "NASDAQ"] }
  let dropped : World := { recorded with
    cache := ({} : Cache).invalidate "AAPL"
    log := [.indicatorRequested "AAPL" "NASDAQ"] }
  have hopened : Turn {} nothing opened := .register nothing ⟨"AAPL", "NASDAQ", "", true⟩ rfl
  have hrecorded : Turn {} opened recorded := by
    have hturn : Turn {} opened _ := .perform opened (.record openingBar) (by simp)
    rw [Operation.process, after_forget, after_recordPrice rfl] at hturn
    exact hturn
  have hdropped : Turn {} recorded dropped := by
    have hturn : Turn {} recorded _ :=
      .take recorded [] [] (.priceIngested "AAPL" "NASDAQ") _ (.inl rfl)
    rw [Operation.process, after_forget, after_handle, stageOf, after_onPriceIngested rfl] at hturn
    exact hturn
  have hpriced : Turn {} dropped priced := by
    have hturn : Turn {} dropped _ := .perform dropped (.latestPrice "AAPL") (by simp)
    rw [Operation.process, after_forget, after_latestPrice rfl] at hturn
    exact hturn
  exact .tail (.tail (.tail (.single hopened) hrecorded) hdropped) hpriced

/-- A cached price that is not the latest one is there, and the event that drops it is queued. -/
theorem cache_coherent_behind :
    Relation.ReflTransGen (Turn {}) nothing behind ∧
      behind.cache.prices.get? behind.clock.instant "AAPL" = some openingBar ∧
      behind.store.latestPrice "AAPL" ≠ some openingBar ∧ behind.Awaits "AAPL" := by
  let passed : World := { priced with clock := { priced.clock with instant := 1 } }
  have hpassed : Turn {} priced passed := .pass priced 1 (Nat.zero_le 1)
  have hbehind : Turn {} passed behind := by
    have hturn : Turn {} passed _ := .perform passed (.record nextBar) (by simp)
    rw [Operation.process, after_forget, after_recordPrice rfl] at hturn
    exact hturn
  have hturns := (turns_priced.tail hpassed).tail hbehind
  have hlive : behind.cache.prices.get? behind.clock.instant "AAPL" = some openingBar := rfl
  have hlatest : behind.store.latestPrice "AAPL" ≠ some openingBar := fun hsame => by
    have htime := congrArg (Option.map Bar.time) hsame
    revert htime
    decide +kernel
  have hnames : nothing.NamesSymbols := fun source hprimary => by cases hprimary
  obtain ⟨-, -, hprice⟩ := cache_coherent rfl rfl rfl rfl hnames hturns "AAPL"
  exact ⟨hturns, hlive, hlatest, (hprice openingBar hlive).resolve_left hlatest⟩

end Pipeline

end MarketSignals
