import MarketSignals.Proofs.Pipeline.Calm
import MarketSignals.Proofs.Store.Registrations

/-!
# The refresh sweep

What asking for the indicators of all active instruments comes to, in a world whose next
publications may fail. The sweep publishes one event after the other and stops at the first failure,
with everything before it published and nothing after. What it goes through does not depend on how
the store's map lists its entries, and its events are ones that validation lets pass.

## Main results

* `after_requestIndicators_all`, `after_requestIndicators_refused`: a sweep over given instruments,
  without a failure and up to the first one.
* `sweep_reaches_active`: what the sweep does in the world of any run; its events are valid.
-/

namespace MarketSignals

namespace World

variable {w : World} {event : Event} {reason : String}

/-- Whether the next query of a kind is carried out. -/
def Serves (w : World) (operation : Store.Operation) : Prop :=
  (w.faults.store operation).head?.join = none

/-- Why the publication after the next `i` fails; none where it succeeds. -/
def refusal? (w : World) (i : Nat) : Option String :=
  w.faults.publish[i]?.join

/-- The world once events were published in some number of attempts. -/
def sent (w : World) (events : List Event) (attempts : Nat) : World :=
  { w with
    log := w.log ++ events
    faults := { w.faults with publish := w.faults.publish.drop attempts } }

/-- An attempt brings the failures behind it closer by one. -/
theorem refusal?_sent (w : World) (events : List Event) (i : Nat) :
    (w.sent events 1).refusal? i = w.refusal? (i + 1) := by
  rw [refusal?, refusal?, sent, List.getElem?_drop, Nat.add_comm]

theorem sent_sent (w : World) (events more : List Event) (attempts others : Nat) :
    (w.sent events attempts).sent more others = w.sent (events ++ more) (attempts + others) := by
  simp only [sent, List.append_assoc, List.drop_drop]

/-- The world once a query of a kind was let through to the store. -/
def served (w : World) (operation : Store.Operation) : World :=
  { w with faults := w.faults.setStore operation (w.faults.store operation).tail }

/-- A query that is carried out is answered by the store. -/
theorem after_store_of_serves (query : Store.Query) (h : w.Serves query.operation) :
    w.after (Attempt.store query).run =
      (.ok (w.store.ask query).1,
        { w.served query.operation with store := (w.store.ask query).2 }) := by
  show ((w.askStore query).1.mapError _, (w.askStore query).2) = _
  rw [askStore, h]
  rfl

/-- A reading query that is carried out is answered, and leaves the store as it is. -/
theorem after_read {query : Store.Query} (hread : query.isRead) (h : w.Serves query.operation) :
    w.after (Attempt.store query).run =
      (.ok (w.store.ask query).1, w.served query.operation) := by
  rw [after_store_of_serves query h, Store.ask_of_isRead hread]
  rfl

theorem after_publish_of_taken (h : w.refusal? 0 = none) :
    w.after (Attempt.publish event).run = (.ok (), w.sent [event] 1) := by
  show ((w.publish event).1.mapError _, (w.publish event).2) = _
  rw [refusal?, ← List.head?_eq_getElem?] at h
  rw [publish, h, sent, List.drop_one]
  rfl

theorem after_publish_of_refused (h : w.refusal? 0 = some reason) :
    w.after (Attempt.publish event).run =
      (.error (.publish (.broker event.stage reason)), w.sent [] 1) := by
  show ((w.publish event).1.mapError _, (w.publish event).2) = _
  rw [refusal?, ← List.head?_eq_getElem?] at h
  rw [publish, h, sent, List.drop_one, List.append_nil]
  rfl

end World

namespace Pipeline

variable {w : World} {instruments : List Instrument} {reason : String} {i : Nat}

/-! ### Requests -/

/-- The events that ask for the indicators of instruments. -/
def requests (instruments : List Instrument) : List Event :=
  instruments.map fun instrument => .indicatorRequested instrument.symbol instrument.market

/-- Where no publication fails, all is published. -/
theorem after_requestIndicators_all (h : ∀ k < instruments.length, w.refusal? k = none) :
    w.after (requestIndicators instruments).run =
      (.ok (), w.sent (requests instruments) instruments.length) := by
  induction instruments generalizing w with
  | nil =>
      rw [requestIndicators, World.after_pure, requests, List.map_nil, World.sent, List.append_nil]
      rfl
  | cons instrument rest ih =>
      let event : Event := .indicatorRequested instrument.symbol instrument.market
      have htaken : w.refusal? 0 = none := h 0 (Nat.zero_lt_succ _)
      have hrest : ∀ k < rest.length, (w.sent [event] 1).refusal? k = none := fun k hk =>
        (w.refusal?_sent _ k).trans (h (k + 1) (Nat.succ_lt_succ hk))
      rw [requestIndicators, World.after_bind_ok (World.after_publish_of_taken htaken), ih hrest,
        World.sent_sent, Nat.add_comm]
      rfl

/-- Where a publication is the first to fail, those before it are published, and no more. -/
theorem after_requestIndicators_refused (hi : i < instruments.length)
    (hbefore : ∀ k < i, w.refusal? k = none) (hrefused : w.refusal? i = some reason) :
    w.after (requestIndicators instruments).run =
      (.error (.publish (.broker .indicatorRequested reason)),
        w.sent (requests (instruments.take i)) (i + 1)) := by
  -- Each request that is published brings the failure closer by one.
  induction instruments generalizing w i with
  | nil => exact absurd hi (Nat.not_lt_zero i)
  | cons instrument rest ih =>
      let event : Event := .indicatorRequested instrument.symbol instrument.market
      cases i with
      | zero =>
          rw [requestIndicators, World.after_bind, World.after_publish_of_refused hrefused]
          rfl
      | succ i =>
          have htaken : w.refusal? 0 = none := hbefore 0 (Nat.zero_lt_succ i)
          have hrest := ih (w := w.sent [event] 1) (Nat.lt_of_succ_lt_succ hi)
            (fun k hk => (w.refusal?_sent _ k).trans (hbefore (k + 1) (Nat.succ_lt_succ hk)))
            ((w.refusal?_sent _ i).trans hrefused)
          rw [requestIndicators, World.after_bind_ok (World.after_publish_of_taken htaken), hrest,
            World.sent_sent, Nat.add_comm 1]
          rfl

/-! ### The sweep -/

section Served

variable (hserves : w.Serves .activeInstruments)
include hserves

/-- Once the active instruments are listed, a sweep is the requests for them. -/
theorem after_refreshActive_listed :
    w.after refreshActive.run =
      (w.served .activeInstruments).after (do
        requestIndicators w.store.activeInstruments
        pure w.store.activeInstruments.length : Attempt Nat).run :=
  World.after_bind_ok (World.after_read rfl hserves) _

/-- Where no publication fails, the sweep ends with the number of active instruments. -/
theorem after_refreshActive_all
    (hall : ∀ k < w.store.activeInstruments.length, w.refusal? k = none) :
    w.after refreshActive.run =
      (.ok w.store.activeInstruments.length,
        (w.served .activeInstruments).sent (requests w.store.activeInstruments)
          w.store.activeInstruments.length) := by
  rw [after_refreshActive_listed hserves,
    World.after_bind_ok (after_requestIndicators_all (w := w.served _) hall), World.after_pure]

/-- Where a publication is the first to fail, the sweep ends with its failure. -/
theorem after_refreshActive_refused (hi : i < w.store.activeInstruments.length)
    (hbefore : ∀ k < i, w.refusal? k = none) (hrefused : w.refusal? i = some reason) :
    w.after refreshActive.run =
      (.error (.publish (.broker .indicatorRequested reason)),
        (w.served .activeInstruments).sent (requests (w.store.activeInstruments.take i))
          (i + 1)) := by
  rw [after_refreshActive_listed hserves, World.after_bind,
    after_requestIndicators_refused (w := w.served _) hi hbefore hrefused]

end Served

/-- In a calm world the sweep only adds its requests to the log. -/
theorem after_refreshActive (h : w.Calm) :
    w.after refreshActive.run =
      (.ok w.store.activeInstruments.length,
        { w with log := w.log ++ requests w.store.activeInstruments }) := by
  have hserves : w.Serves .activeInstruments := by
    rw [World.Serves, h]
    rfl
  have hall : ∀ k, w.refusal? k = none := fun k => by
    rw [World.refusal?, h]
    rfl
  rw [after_refreshActive_all hserves fun k _ => hall k]
  obtain ⟨store, cache, log, primary, asked, metrics, faults, clock⟩ := w
  obtain rfl : faults = Faults.none := h
  simp [World.sent, World.served, Faults.setStore, Faults.none]

/-- Whatever fails, a sweep leaves store, cache and source of decisions alone. -/
theorem kept_refreshActive (w : World) :
    (w.after refreshActive.run).2.store = w.store ∧
      (w.after refreshActive.run).2.cache = w.cache ∧
      (w.after refreshActive.run).2.asked = w.asked := by
  let allowed : Call → Prop := fun call =>
    call = .store .activeInstruments ∨ ∃ event, call = .publish event
  let view : World → Store × Cache × List DecisionRequest := fun w => (w.store, w.cache, w.asked)
  have honly : Attempt.Only allowed refreshActive :=
    only_refreshActive (.inl rfl) fun event => .inr ⟨event, rfl⟩
  have hview : view (w.after refreshActive.run).2 = view w := by
    refine Process.view_run_of_calls World.answer view (fun w call hcall => ?_) _ w
      (honly.calls (w.path_after _))
    rcases hcall with rfl | ⟨event, rfl⟩
    · have hread := w.untouched_of_read (.store .activeInstruments) rfl
      simp only [view, hread.store, hread.cache, hread.asked]
    · simp only [World.answer, World.publish]
      split <;> rfl
  simpa only [view, Prod.mk.injEq] using hview

/-- An event passes validation where its symbol is not blank and has an instrument of the market. -/
theorem validate_of_registered {symbol market : String} {instrument : Instrument}
    (hserves : w.Serves .findInstrument) (hsymbol : (Text.trim symbol.toList).isEmpty = false)
    (hfind : w.store.findInstrument symbol = some instrument)
    (hmarket : instrument.market = market) :
    (w.after (validate symbol market).run).1 = .ok instrument := by
  rw [validate]
  simp only [hsymbol, Bool.false_eq_true, if_false]
  rw [World.after_bind_ok (World.after_read rfl hserves)]
  simp only [Store.ask, hfind, hmarket, if_true]
  rfl

/-- **A sweep reaches every active instrument once, and stops cleanly.** After any run of queries
one list of instruments is due, and a sweep goes through that list in every world that holds what
the run registered, in whatever order its map lists the entries. Without a failure all requests are
published and the result is their number; where a publication is the first to fail the result is
its failure and the requests before it are published. The store and the cache stay as they were,
and the event of an instrument that is not registered again passes validation at any later time,
unless its symbol is blank. -/
theorem sweep_reaches_active (queries : List Store.Query) :
    let s := ({} : Store).carryOut queries
    let due := s.activeInstruments
    Store.IsDue queries due ∧
      ∀ w : World, w.store.instruments.entries.Perm s.instruments.entries →
        let swept := w.after refreshActive.run
        (swept.2.store = w.store ∧ swept.2.cache = w.cache ∧ swept.2.asked = w.asked) ∧
        (w.Serves .activeInstruments →
          ((∀ k < due.length, w.refusal? k = none) →
            swept.1 = .ok due.length ∧ swept.2.log = w.log ++ requests due) ∧
          ∀ i < due.length, ∀ reason, (∀ k < i, w.refusal? k = none) →
            w.refusal? i = some reason →
              swept.1 = .error (.publish (.broker .indicatorRequested reason)) ∧
              swept.2.log = w.log ++ requests (due.take i)) ∧
        ∀ instrument ∈ due, (Text.trim instrument.symbol.toList).isEmpty = false →
          ∀ later : List Store.Query,
            (∀ added, .addInstrument added ∈ later → added.symbol ≠ instrument.symbol) →
              ∀ w' : World, w'.store = swept.2.store.carryOut later → w'.Serves .findInstrument →
                (w'.after (validate instrument.symbol instrument.market).run).1 =
                  .ok instrument := by
  intro s due
  have hdue : Store.IsDue queries due := Store.isDue_of_perm (List.Perm.refl _)
  refine ⟨hdue, fun w hlisted => ?_⟩
  intro swept
  -- Both stores list what is due after the run, and there is one such list.
  have hactive : w.store.activeInstruments = due := (Store.isDue_of_perm hlisted).unique hdue
  refine ⟨kept_refreshActive w, fun hserves => ⟨fun hall => ?_, ?_⟩, ?_⟩
  · rw [← hactive] at hall ⊢
    have hswept : swept = _ := after_refreshActive_all hserves hall
    rw [hswept]
    exact ⟨rfl, rfl⟩
  · intro i hi reason hbefore hrefused
    rw [← hactive] at hi ⊢
    have hswept : swept = _ := after_refreshActive_refused hserves hi hbefore hrefused
    rw [hswept]
    exact ⟨rfl, rfl⟩
  · intro instrument hinstrument hsymbol later hlater w' hstore hserves
    have hfind : w'.store.findInstrument instrument.symbol = some instrument := by
      rw [hstore, (kept_refreshActive w).1, Store.findInstrument_carryOut_of_unregistered hlater,
        Store.findInstrument_of_perm hlisted]
      exact ((hdue.mem_iff instrument).mp hinstrument).1
    exact validate_of_registered hserves hsymbol hfind rfl

/-- An instrument whose market changed. -/
def movedInstrument : Instrument :=
  ⟨"MSFT", "XETRA", "", true⟩

/-- An instrument that was registered once. -/
def settledInstrument : Instrument :=
  ⟨"AAPL", "NASDAQ", "", true⟩

/-- Registrations of which one changed a market and one an active flag. -/
def registrations : List Store.Query :=
  [⟨"MSFT", "NASDAQ", "", true⟩, ⟨"OLD", "NASDAQ", "", true⟩, settledInstrument,
    movedInstrument, ⟨"OLD", "NASDAQ", "", false⟩].map .addInstrument

/-- A world that lists what the registrations left in another order, and whose second publication
fails. -/
def brittle : World where
  store := ({} : Store).carryOut
    ([⟨"OLD", "NASDAQ", "", false⟩, settledInstrument, movedInstrument].map .addInstrument)
  faults := { publish := [none, some "down"] }
  clock := { readings := fun _ => .epoch }

/-- The first event is published and the second one is not; where nothing fails both are. The
published one is valid though the other instrument is registered again. -/
theorem sweep_reaches_active_brittle :
    let calm : World := { brittle with faults := {} }
    let swept := brittle.after refreshActive.run
    let later : World :=
      { calm with store := swept.2.store.addInstrument ⟨"MSFT", "NASDAQ", "", true⟩ }
    (swept.1 = .error (.publish (.broker .indicatorRequested "down")) ∧
        swept.2.log = requests [settledInstrument]) ∧
      ((calm.after refreshActive.run).1 = .ok 2 ∧
        (calm.after refreshActive.run).2.log = requests [settledInstrument, movedInstrument]) ∧
      (later.after (validate "AAPL" "NASDAQ").run).1 = .ok settledInstrument := by
  intro calm swept later
  have hactive : (({} : Store).carryOut registrations).activeInstruments =
      [settledInstrument, movedInstrument] := by
    have horder : Store.symbolOrder movedInstrument settledInstrument = false := by decide
    show List.mergeSort [movedInstrument, settledInstrument] Store.symbolOrder = _
    simp [List.mergeSort, List.MergeSort.Internal.splitInTwo, horder]
  have hlisted : brittle.store.instruments.entries.Perm
      (({} : Store).carryOut registrations).instruments.entries := by
    decide
  obtain ⟨-, hsweeps⟩ := sweep_reaches_active registrations
  rw [hactive] at hsweeps
  obtain ⟨-, hstops, hvalid⟩ := hsweeps brittle hlisted
  obtain ⟨-, hreaches, -⟩ := hsweeps calm hlisted
  refine ⟨(hstops rfl).2 1 (by decide) "down" (by decide) rfl, ?_, ?_⟩
  · exact (hreaches rfl).1 fun k _ => rfl
  · exact hvalid settledInstrument List.mem_cons_self (by decide)
      [.addInstrument ⟨"MSFT", "NASDAQ", "", true⟩] (by simp [settledInstrument]) later rfl rfl

end Pipeline

end MarketSignals
