import MarketSignals.Proofs.Pipeline.Malformed
import MarketSignals.Proofs.Pipeline.Slice

/-!
# The stage of the decision

Where a decision can be made and nothing fails, one is made, whatever the primary source answers:
its own decision under its own origin, or that of the rules. The source is asked once, one signal is
stored, and the recent signals with it are cached. So a run of decisions stores one signal for each.

A decision may be about another symbol than its event; its signal then is stored under that symbol,
and what is cached are still the recent signals of the event's symbol.

## Main results

* `World.Labelled`: whose decision a signal holds, and under which origin.
* `DecisionTurn.Answered`: what one decision comes to; `after_decisionRequested` shows it of each.
* `DecisionRun`: decisions one after the other, time passing between them; `decisionRun_exists`.
* `every_decision_answered`: in every run each decision is answered, and nothing else is added.
-/

namespace MarketSignals

/-! ### One decision -/

/-- Whose decision on a request a signal holds. If the primary source succeeds it is the source's,
under the source's own origin whatever the decision claims. Else it is the answer of the rules to
the same request, which says first that the rules stand in. -/
structure World.Labelled (w : World) (request : DecisionRequest) (market : String)
    (signal : Signal) : Prop where
  ofPrimary : ∀ source decision, w.primary = some source →
    (source.answer w.asked w.clock.now request).result = .ok decision →
      signal.source = source.origin ∧ signal.action = decision.action ∧
        signal.reasons = decision.reasons ∧ signal.symbol = decision.symbol ∧
        signal.producedAt = decision.producedAt
  ofRules : (∀ source decision, w.primary = some source →
    (source.answer w.asked w.clock.now request).result ≠ .ok decision) →
      signal.source = .rule ∧ signal.reasons.head? = some Rules.narrative ∧
        ∃ now, signal = Signal.ofDecision (Rules.decide request now) market
          ((Rules.decide request now).strength request.indicators.readings)

/-- A primary source is asked once more, where there is one. -/
theorem World.length_askedAlso (w : World) (request : DecisionRequest) :
    (w.askedAlso request).length = w.asked.length + if w.primary.isSome then 1 else 0 := by
  unfold World.askedAlso
  split <;> simp

namespace Pipeline

/-- The signal of a decision is labelled by whose decision it is. -/
theorem labelled_signalOn (config : Config) (w : World) (market : String) (price : Bar)
    (indicators : Snapshot) : w.Labelled (request config price indicators) market
      (signalOn config w.decisionOn market price indicators) where
  ofPrimary source decision hprimary hresult := by
    have hdecision : w.decisionOn (request config price indicators) =
        { decision with source := source.origin } := by
      simp only [World.decisionOn, hprimary, hresult]
    rw [signalOn, hdecision]
    exact ⟨rfl, rfl, rfl, rfl, rfl⟩
  ofRules hfailed := by
    obtain ⟨now, hdecision⟩ : ∃ now, w.decisionOn (request config price indicators) =
        Rules.decide (request config price indicators) now := by
      unfold World.decisionOn
      cases hprimary : w.primary with
      | none => exact ⟨_, rfl⟩
      | some source =>
          dsimp only
          split
          · rename_i decision hresult
            exact absurd hresult (hfailed source decision hprimary)
          · exact ⟨_, rfl⟩
    rw [signalOn, hdecision]
    exact ⟨rfl, rfl, now, rfl⟩

/-- A decision that is asked for. -/
structure DecisionAsk where
  symbol : String
  market : String
  indicators : Snapshot

/-- The instrument of the symbol is known and of the market, the snapshot is of the symbol, and
there is a price. -/
structure DecisionAsk.Fits (ask : DecisionAsk) (s : Store) : Prop where
  instrument : ¬ s.Misfit ask.symbol ask.market
  snapshot : ask.indicators.symbol = ask.symbol
  price : s.latestPrice ask.symbol ≠ none

/-- A decision that is asked for, and the world in which its event is handled. -/
structure DecisionTurn extends DecisionAsk where
  world : World

namespace DecisionTurn

/-- The event that asks for the decision. -/
def event (turn : DecisionTurn) : Event :=
  .decisionRequested turn.symbol turn.market turn.indicators

/-- The event that reports the signal of the decision. -/
def report (turn : DecisionTurn) (signal : Signal) : Event :=
  .signalGenerated turn.symbol turn.market signal

/-- What handling the event comes to. -/
def done (config : Config) (turn : DecisionTurn) : Except PipelineError Outcome × World :=
  turn.world.after (handle config turn.event).run

/-- The symbol is that of an instrument of the market and of the snapshot, and a price of it is
cached or stored. -/
def Ready (turn : DecisionTurn) : Prop :=
  ¬ turn.world.store.Misfit turn.symbol turn.market ∧ ¬ turn.world.Undecidable turn.event

/-- The decision is answered by a signal: the stage advances, the signal is stored and published,
the primary source was asked once about the known price, the signal is labelled by whose decision it
holds, and the recent signals of the symbol are cached for their lifetime. -/
structure Answered (config : Config) (turn : DecisionTurn) (signal : Signal) : Prop where
  advanced : (turn.done config).1 = .ok .advanced
  stored : (turn.done config).2.store = turn.world.store.appendSignal signal
  published : (turn.done config).2.log = turn.world.log ++ [turn.report signal]
  decided : ∃ price, turn.world.knownPrice turn.symbol = some price ∧
    let request := request config price turn.indicators
    (turn.done config).2.asked = turn.world.askedAlso request ∧
      turn.world.Labelled request turn.market signal
  cached : ∀ instant, (turn.done config).2.cache.signals.get? instant turn.symbol =
    if instant < turn.world.clock.instant + turn.world.cache.ttl.signals.nanos then
      some ((turn.done config).2.store.recentSignals turn.symbol config.recentSignals)
    else none
  primary : (turn.done config).2.primary = turn.world.primary
  faults : (turn.done config).2.faults = turn.world.faults

end DecisionTurn

/-- Nothing speaks against exactly the events that fit their instrument. -/
theorem objection?_eq_none_iff {s : Store} {symbol market : String} :
    objection? symbol market (s.findInstrument symbol) = none ↔ ¬ s.Misfit symbol market := by
  rw [← exists_objection_iff, ← Option.not_isSome_iff_eq_none, Option.isSome_iff_exists]

/-- Every decision that can be made is answered by a signal. -/
theorem after_decisionRequested (config : Config) (turn : DecisionTurn)
    (hcalm : turn.world.faults = Faults.none) (hready : turn.Ready) :
    ∃ signal, turn.Answered config signal := by
  obtain ⟨⟨symbol, market, indicators⟩, w⟩ := turn
  obtain ⟨hfits, hdecidable⟩ := hready
  have hnone : objection? symbol market (w.store.findInstrument symbol) = none :=
    objection?_eq_none_iff.mpr hfits
  obtain ⟨hsymbol, hknown⟩ := not_or.mp hdecidable
  rw [← World.knownPrice_eq_none_iff] at hknown
  obtain ⟨price, hprice⟩ := Option.ne_none_iff_exists'.mp hknown
  let counted := w.record (.stageEvents Stage.decisionRequested.queue 1)
  obtain ⟨metrics, read, hafter⟩ :=
    after_onDecisionRequested (w := counted) hcalm config symbol market indicators
  rw [show objection? symbol market (counted.store.findInstrument symbol) = none from hnone,
    show counted.knownPrice symbol = some price from hprice] at hafter
  simp only [if_pos (not_not.mp hsymbol)] at hafter
  have hdone := (after_handle w (.decisionRequested symbol market indicators)).trans hafter
  exact ⟨signalOn config w.decisionOn market price indicators,
    { advanced := congrArg (·.1) hdone
      stored := congrArg (·.2.store) hdone
      published := congrArg (·.2.log) hdone
      decided := ⟨price, hprice, congrArg (·.2.asked) hdone,
        labelled_signalOn config w market price indicators⟩
      cached := fun instant => by
        rw [DecisionTurn.done, DecisionTurn.event, hdone]
        refine (Slots.get?_put ..).trans ?_
        rw [if_pos rfl, World.ttl_cacheWithPrice]
        rfl
      primary := congrArg (·.2.primary) hdone
      faults := congrArg (·.2.faults) hdone }⟩

/-! ### Decisions one after the other -/

/-- `DecisionRun config w turns w'`: from the world `w` the decisions are handled one after the
other, any time after the one before, and leave the world `w'`. -/
inductive DecisionRun (config : Config) : World → List DecisionTurn → World → Prop
  | nil (w : World) : DecisionRun config w [] w
  | cons {w w' : World} {turn : DecisionTurn} {turns : List DecisionTurn}
      (hworld : turn.world = { w with clock := turn.world.clock }) (hready : turn.Ready)
      (hrest : DecisionRun config (turn.done config).2 turns w') :
      DecisionRun config w (turn :: turns) w'

/-- A decision may be handled at once. -/
theorem DecisionRun.cons_now {config : Config} {w w' : World} {ask : DecisionAsk}
    {turns : List DecisionTurn} (hready : DecisionTurn.Ready ⟨ask, w⟩)
    (hrest : DecisionRun config (DecisionTurn.done config ⟨ask, w⟩).2 turns w') :
    DecisionRun config w (⟨ask, w⟩ :: turns) w' :=
  .cons rfl hready hrest

theorem DecisionAsk.Fits.ready {ask : DecisionAsk} {w : World} (h : ask.Fits w.store) :
    DecisionTurn.Ready ⟨ask, w⟩ :=
  ⟨h.instrument, not_or.mpr ⟨not_not.mpr h.snapshot, fun hnone => h.price hnone.2⟩⟩

/-- A decision that fits the store still does when another one was answered. -/
theorem DecisionTurn.Answered.fits {config : Config} {turn : DecisionTurn} {signal : Signal}
    (hanswered : turn.Answered config signal) {ask : DecisionAsk} (h : ask.Fits turn.world.store) :
    ask.Fits (turn.done config).2.store := by
  rw [hanswered.stored]
  exact ⟨h.instrument, h.snapshot, h.price⟩

/-- Decisions that fit the store can all be handled, whatever they are. -/
theorem decisionRun_exists (config : Config) {w : World} (hcalm : w.Calm) {asks : List DecisionAsk}
    (hfits : ∀ ask ∈ asks, ask.Fits w.store) :
    ∃ turns w', turns.map (·.toDecisionAsk) = asks ∧ DecisionRun config w turns w' := by
  induction asks generalizing w with
  | nil => exact ⟨[], w, rfl, .nil w⟩
  | cons ask rest ih =>
      obtain ⟨hfirst, hrest⟩ := List.forall_mem_cons.mp hfits
      let turn : DecisionTurn := ⟨ask, w⟩
      obtain ⟨signal, hanswered⟩ := after_decisionRequested config turn hcalm hfirst.ready
      obtain ⟨turns, w', hasks, hrun⟩ := ih (w := (turn.done config).2)
        (hanswered.faults.trans hcalm) fun other hmem => hanswered.fits (hrest other hmem)
      exact ⟨turn :: turns, w', by rw [List.map_cons, hasks], .cons_now hfirst.ready hrun⟩

/-- **Every decision is answered.** Where nothing fails, each of a run of decisions that can be made
is answered by one signal: its stage advances, whatever the primary source answers, and the signal
is labelled by whose decision it holds. The run stores these signals and publishes their reports in
turn, nothing else, and the source was asked once for each. -/
theorem every_decision_answered (config : Config) {w w' : World} {turns : List DecisionTurn}
    (hcalm : w.faults = Faults.none) (hrun : DecisionRun config w turns w') :
    ∃ signals, List.Forall₂ (DecisionTurn.Answered config) turns signals ∧
      w'.store = { w.store with signals := w.store.signals ++ signals } ∧
      w'.log = w.log ++ List.zipWith DecisionTurn.report turns signals ∧
      w'.asked.length = w.asked.length + if w.primary.isSome then turns.length else 0 := by
  induction hrun with
  | nil w => exact ⟨[], .nil, by simp⟩
  | @cons w w' turn turns hworld hready hrest ih =>
      have hfaults : turn.world.faults = Faults.none := by rw [hworld]; exact hcalm
      obtain ⟨signal, hanswered⟩ := after_decisionRequested config turn hfaults hready
      obtain ⟨signals, hall, hstore, hlog, hasked⟩ := ih (hanswered.faults.trans hfaults)
      obtain ⟨price, -, hone, -⟩ := hanswered.decided
      refine ⟨signal :: signals, .cons hanswered hall, ?_, ?_, ?_⟩
      · rw [hstore, hanswered.stored, hworld]
        simp [Store.appendSignal]
      · rw [hlog, hanswered.published, hworld]
        simp
      · rw [hasked, hone, hanswered.primary, World.length_askedAlso, hworld]
        dsimp only
        split <;> simp; omega

/-- A remote source that is down whenever it was asked before. Its decision says that it is one of
the rules. -/
def waveringSource : DecisionSource where
  origin := .remote
  answer past now request :=
    match past with
    | [] => ⟨.ok ⟨request.symbol, .buy, 0.9, ["momentum"], .rule, now⟩, 0.1⟩
    | _ :: _ => ⟨.error (.unavailable "connection refused"), 0.1⟩

/-- A world with one priced instrument and the wavering source. -/
def wavering : World where
  store := (Store.addInstrument {} ⟨"AAPL", "NASDAQ", "", true⟩).appendPrice
    ⟨"AAPL", "NASDAQ", 10, 11, 9, 10, 1000, 0, .epoch⟩
  primary := some waveringSource
  clock := { readings := fun _ => .epoch }

/-- A decision on the instrument of the wavering world. -/
def neutralAsk : DecisionAsk where
  symbol := "AAPL"
  market := "NASDAQ"
  indicators :=
    ⟨"AAPL", ⟨50, ⟨0, 0, 0⟩, 10, 10, 10, 10, ⟨10, 10, 10⟩, ⟨50, 50⟩, -50, 0, 0⟩, 50, .epoch⟩

/-- Two decisions in the wavering world: the first signal is the source's, the second that of the
rules. -/
theorem every_decision_answered_wavering :
    let first : DecisionTurn := ⟨neutralAsk, wavering⟩
    let second : DecisionTurn := ⟨neutralAsk, (first.done {}).2⟩
    let final := (second.done {}).2
    DecisionRun {} wavering [first, second] final ∧
      ∃ signals, List.Forall₂ (DecisionTurn.Answered {}) [first, second] signals ∧
        signals.map (fun signal => (signal.source, signal.reasons)) =
          [(.remote, ["momentum"]),
            (.rule, [Rules.narrative, "MACD negative", "SMA20 <= SMA50"])] ∧
        final.asked.length = 2 := by
  intro first second final
  have hfits : neutralAsk.Fits wavering.store :=
    ⟨objection?_eq_none_iff.mp (by decide +kernel), rfl, by decide +kernel⟩
  obtain ⟨signal, hanswered⟩ := after_decisionRequested {} first rfl hfits.ready
  have hrun : DecisionRun {} wavering [first, second] final :=
    .cons_now hfits.ready (.cons_now (hanswered.fits hfits).ready (.nil _))
  obtain ⟨signals, hall, hstore, -, hasked⟩ := every_decision_answered {} rfl hrun
  have hstored : final.store.signals = signals := by
    rw [hstore]
    rfl
  have htwice : final.asked.length = 2 := hasked
  have hsources : signals.map (fun signal => (signal.source, signal.reasons)) =
      [(.remote, ["momentum"]), (.rule, [Rules.narrative, "MACD negative", "SMA20 <= SMA50"])] := by
    rw [← hstored]
    decide +kernel
  exact ⟨hrun, signals, hall, hsources, htwice⟩

end Pipeline

end MarketSignals
