import MarketSignals.Proofs.Indicator.Compute
import MarketSignals.Proofs.Pipeline.Malformed
import MarketSignals.Proofs.Store.FirstWrite

/-!
# The stage of the indicators

Where indicators are asked for and nothing fails, the stage looks at the newest bars of the
instrument: as many as the configured window, or as the lookbacks take where that is more. So the
stage ends for want of bars exactly where the store has too few, whatever window is configured.

## Main results

* `after_indicatorRequested`: what handling the event comes to, by the snapshot of the window.
* `Store.exists_window`: the window that is read is the end of an ascending series.
* `indicators_of_newest`: how the stage ends, by the number of bars and by their prices.
-/

namespace MarketSignals

/-- What is read of a store's series is its end, and the series is in the strict order of time. -/
theorem Store.exists_window (queries : List Query) (symbol : String) (limit : Nat) :
    let s := ({} : Store).carryOut queries
    ∃ older, s.bars symbol = older ++ s.recentPrices symbol limit ∧
      (s.recentPrices symbol limit).length = min (s.priceCount symbol) limit ∧
      (s.bars symbol).Pairwise (·.time < ·.time) := by
  intro s
  refine ⟨(s.bars symbol).take ((s.bars symbol).length - limit), ?_, ?_, ?_⟩
  · exact (List.take_append_drop _ _).symm
  · rw [recentPrices, Series.length_trailing, priceCount, Nat.min_comm]
  · exact (PriceMap.lists_carryOut queries symbol).ordered

/-- The end of an ordered series has the last bar of the series. -/
theorem Store.getLast?_recentPrices {s : Store} {symbol : String} {limit : Nat}
    (h : s.recentPrices symbol limit ≠ []) :
    (s.recentPrices symbol limit).getLast? = s.latestPrice symbol := by
  rw [recentPrices, Series.trailing, List.getLast?_drop, if_neg, latestPrice]
  simpa [recentPrices, Series.trailing] using h

namespace Pipeline

variable {config : Config} {w : World} {symbol market : String}

/-- Where nothing speaks against the event, handling it comes to what the snapshot of the window
says. -/
theorem after_indicatorRequested (config : Config) (h : w.Calm)
    (hfits : objection? symbol market (w.store.findInstrument symbol) = none) :
    ∃ metrics, w.after (handle config (.indicatorRequested symbol market)).run =
      match config.lookbacks.compute symbol
          (w.store.recentPrices symbol config.effectivePriceWindow) with
      | .error error => (.ok (.endedEarly error), { w with metrics })
      | .ok snapshot =>
        (.ok .advanced, { w with
          store := w.store.appendSnapshot snapshot
          cache := w.cache.setSnapshot w.clock.instant snapshot
          log := w.log ++ [.decisionRequested symbol market snapshot]
          metrics }) := by
  let counted := w.record (.stageEvents Stage.indicatorRequested.queue 1)
  obtain ⟨metrics, hafter⟩ :=
    after_onIndicatorRequested (w := counted) h config symbol market
  rw [show objection? symbol market (counted.store.findInstrument symbol) = none from hfits]
    at hafter
  rw [after_handle]
  cases hcompute : config.lookbacks.compute symbol
      (w.store.recentPrices symbol config.effectivePriceWindow) with
  | error error =>
      rw [show config.lookbacks.compute symbol
        (counted.store.recentPrices symbol config.effectivePriceWindow) = _ from hcompute] at hafter
      exact ⟨metrics, hafter⟩
  | ok snapshot =>
      rw [show config.lookbacks.compute symbol
        (counted.store.recentPrices symbol config.effectivePriceWindow) = _ from hcompute] at hafter
      exact ⟨counted.metrics, hafter⟩

/-- With too few bars in the store the stage ends early, whatever window is configured. -/
theorem indicatorRequested_of_short (h : w.Calm)
    (hfits : objection? symbol market (w.store.findInstrument symbol) = none)
    (hshort : w.store.priceCount symbol < config.lookbacks.requiredBars) :
    let done := w.after (handle config (.indicatorRequested symbol market)).run
    done.1 = .ok (.endedEarly
      (.insufficientData config.lookbacks.requiredBars (w.store.priceCount symbol))) ∧
      w.Untouched done.2 := by
  intro done
  obtain ⟨metrics, hafter⟩ := after_indicatorRequested config h hfits
  have hwide : config.lookbacks.requiredBars ≤ config.effectivePriceWindow := Nat.le_max_right _ _
  have hlength : (w.store.recentPrices symbol config.effectivePriceWindow).length =
      w.store.priceCount symbol := by
    rw [Store.recentPrices, Series.length_trailing]
    exact Nat.min_eq_right (hshort.le.trans hwide)
  rw [Lookbacks.compute_of_short (hlength.trans_lt hshort), hlength] at hafter
  rw [show done = _ from hafter]
  exact ⟨rfl, rfl, rfl, rfl, rfl⟩

/-- With a price that is no number in the window the stage ends early and names such a bar. -/
theorem indicatorRequested_of_nonFinite (h : w.Calm)
    (hfits : objection? symbol market (w.store.findInstrument symbol) = none)
    (hlong : config.lookbacks.requiredBars ≤
      (w.store.recentPrices symbol config.effectivePriceWindow).length)
    (hbad : ∃ bar ∈ w.store.recentPrices symbol config.effectivePriceWindow,
      bar.isFinite = false) :
    let done := w.after (handle config (.indicatorRequested symbol market)).run
    ∃ bar ∈ w.store.recentPrices symbol config.effectivePriceWindow, bar.isFinite = false ∧
      done.1 = .ok (.endedEarly (.nonFinitePrice bar.symbol bar.time)) ∧ w.Untouched done.2 := by
  intro done
  obtain ⟨metrics, hafter⟩ := after_indicatorRequested config h hfits
  obtain ⟨bar, hmem, hbar, hcompute⟩ := Lookbacks.compute_of_nonFinite symbol hlong hbad
  rw [hcompute] at hafter
  refine ⟨bar, hmem, hbar, ?_⟩
  rw [show done = _ from hafter]
  exact ⟨rfl, rfl, rfl, rfl, rfl⟩

/-- With numbers only in the window, its snapshot is stored, cached and published. -/
theorem indicatorRequested_of_finite (h : w.Calm)
    (hfits : objection? symbol market (w.store.findInstrument symbol) = none)
    (hordered : (w.store.bars symbol).Pairwise (·.time < ·.time))
    (hlong : config.lookbacks.requiredBars ≤
      (w.store.recentPrices symbol config.effectivePriceWindow).length)
    (hfinite : ∀ bar ∈ w.store.recentPrices symbol config.effectivePriceWindow,
      bar.isFinite = true) :
    let window := w.store.recentPrices symbol config.effectivePriceWindow
    let done := w.after (handle config (.indicatorRequested symbol market)).run
    ∃ latest, w.store.latestPrice symbol = some latest ∧
      let snapshot : Snapshot :=
        ⟨symbol, config.lookbacks.readings window, window.length, latest.time⟩
      done.1 = .ok .advanced ∧
      done.2.store = w.store.appendSnapshot snapshot ∧
      done.2.cache = w.cache.setSnapshot w.clock.instant snapshot ∧
      done.2.log = w.log ++ [.decisionRequested symbol market snapshot] := by
  intro window done
  obtain ⟨metrics, hafter⟩ := after_indicatorRequested config h hfits
  have hsorted : sortByTime window = window := by
    refine sortByTime_of_ordered (List.Pairwise.imp Timestamp.le_of_lt ?_)
    exact hordered.sublist (List.drop_sublist _ _)
  obtain ⟨latest, hlast, hcompute⟩ := Lookbacks.compute_of_finite symbol hlong hfinite
  rw [hcompute] at hafter
  rw [hsorted] at hlast hafter
  have hsome : window ≠ [] :=
    List.length_pos_iff.mp (config.lookbacks.requiredBars_pos.trans_le hlong)
  refine ⟨latest, (Store.getLast?_recentPrices hsome).symm.trans hlast, ?_⟩
  rw [show done = _ from hafter]
  exact ⟨rfl, rfl, rfl, rfl⟩

/-- **The indicators of the newest bars.** In a store that starts empty, let an instrument with a
symbol that is not blank have some bars, and let its indicators be asked for while nothing fails.
Where the store has fewer bars than the lookbacks take, the stage ends early and says both numbers.
Otherwise it looks at the newest bars, as many as the window, the lookbacks and the store allow. If
one of them has a price that is no number, the stage ends early and names such a bar; in both cases
nothing was stored, cached or published. If all are numbers, one snapshot of exactly these bars in
the order of time, at the time of the latest one, is stored, cached and published in one event.

So a window that is configured too small for the lookbacks never ends a cycle. -/
theorem indicators_of_newest (config : Config) {queries : List Store.Query}
    (hstore : w.store = ({} : Store).carryOut queries) (hcalm : w.faults = Faults.none)
    {instrument : Instrument} (hfound : w.store.findInstrument symbol = some instrument)
    (hblank : Text.trim symbol.toList ≠ []) :
    let required := config.lookbacks.requiredBars
    let available := w.store.priceCount symbol
    let done := w.after (handle config (.indicatorRequested symbol instrument.market)).run
    (available < required →
      done.1 = .ok (.endedEarly (.insufficientData required available)) ∧ w.Untouched done.2) ∧
    (required ≤ available → ∃ older window,
      w.store.bars symbol = older ++ window ∧
      (older ++ window).Pairwise (·.time < ·.time) ∧
      window.length = min available config.effectivePriceWindow ∧
      ((∃ bar ∈ window, bar.isFinite = false) → ∃ bar ∈ window, bar.isFinite = false ∧
        done.1 = .ok (.endedEarly (.nonFinitePrice symbol bar.time)) ∧ w.Untouched done.2) ∧
      ((∀ bar ∈ window, bar.isFinite = true) → ∃ latest, w.store.latestPrice symbol = some latest ∧
        let snapshot : Snapshot :=
          ⟨symbol, config.lookbacks.readings window, window.length, latest.time⟩
        done.1 = .ok .advanced ∧
        done.2.store = w.store.appendSnapshot snapshot ∧
        done.2.cache = w.cache.setSnapshot w.clock.instant snapshot ∧
        done.2.log = w.log ++ [.decisionRequested symbol instrument.market snapshot])) ∧
    (required ≤ available → ∀ required' available',
      done.1 ≠ .ok (.endedEarly (.insufficientData required' available'))) := by
  intro required available done
  have hfits : objection? symbol instrument.market (w.store.findInstrument symbol) = none := by
    simp [objection?, hfound, hblank]
  obtain ⟨older, hsplit, hlength, hordered⟩ :=
    Store.exists_window queries symbol config.effectivePriceWindow
  have hsymbol := (PriceMap.lists_carryOut queries symbol).symbol_eq
  rw [← hstore] at hsplit hlength hordered hsymbol
  let window := w.store.recentPrices symbol config.effectivePriceWindow
  -- The window covers the lookbacks, so that enough bars in the store are enough in the window.
  have hlong (henough : required ≤ available) : required ≤ window.length := by
    rw [hlength]
    exact le_min henough (Nat.le_max_right _ _)
  have hnonFinite (henough : required ≤ available) (hbad : ∃ bar ∈ window, bar.isFinite = false) :
      ∃ bar ∈ window, bar.isFinite = false ∧
        done.1 = .ok (.endedEarly (.nonFinitePrice symbol bar.time)) ∧ w.Untouched done.2 := by
    obtain ⟨bar, hmem, hbar, hdone⟩ :=
      indicatorRequested_of_nonFinite hcalm hfits (hlong henough) hbad
    rw [hsymbol bar (List.mem_of_mem_drop hmem)] at hdone
    exact ⟨bar, hmem, hbar, hdone⟩
  have hnumbers (henough : required ≤ available) (hfinite : ∀ bar ∈ window, bar.isFinite = true) :=
    indicatorRequested_of_finite hcalm hfits hordered (hlong henough) hfinite
  refine ⟨indicatorRequested_of_short hcalm hfits, fun henough => ?_, fun henough r a hearly => ?_⟩
  · exact ⟨older, window, hsplit, hsplit ▸ hordered, hlength, hnonFinite henough, hnumbers henough⟩
  · by_cases hbad : ∃ bar ∈ window, bar.isFinite = false
    · obtain ⟨bar, -, -, hdone, -⟩ := hnonFinite henough hbad
      cases hdone.symm.trans hearly
    · obtain ⟨latest, -, hdone, -⟩ := hnumbers henough fun bar hbar => by
        simpa using fun hno => hbad ⟨bar, hbar, hno⟩
      cases hdone.symm.trans hearly

/-- A world with one instrument and sixty bars of it, one for each of sixty days. -/
def sixtyDays : World where
  store := ({} : Store).carryOut <|
    .addInstrument ⟨"AAPL", "NASDAQ", "", true⟩ :: (List.range 60).map fun day =>
      .appendPrice ⟨"AAPL", "NASDAQ", 10, 11, 9, 10, 1000, 0,
        (Timestamp.of? (day * secondsPerDay) 0).getD .epoch⟩
  clock := ⟨0, fun _ => .epoch, 0⟩

/-- A window of one bar is widened to what the lookbacks take. -/
theorem indicators_of_newest_widened : ∃ snapshot : Snapshot,
    snapshot.dataPoints = 50 ∧
      (sixtyDays.after (handle { priceWindow := 1 } (.indicatorRequested "AAPL" "NASDAQ")).run).1 =
        .ok .advanced ∧
      (sixtyDays.after (handle { priceWindow := 1 }
        (.indicatorRequested "AAPL" "NASDAQ")).run).2.log =
          [.decisionRequested "AAPL" "NASDAQ" snapshot] := by
  have hcount : sixtyDays.store.priceCount "AAPL" = 60 := by decide +kernel
  have hfinite : ∀ bar ∈ sixtyDays.store.bars "AAPL", bar.isFinite = true := by decide +kernel
  have hfound : sixtyDays.store.findInstrument "AAPL" = some ⟨"AAPL", "NASDAQ", "", true⟩ := by
    decide +kernel
  obtain ⟨-, henough, -⟩ := indicators_of_newest { priceWindow := 1 } (w := sixtyDays)
    rfl rfl hfound (by decide +kernel)
  obtain ⟨older, window, hsplit, -, hlength, -, hnumbers⟩ := henough (by rw [hcount]; decide)
  obtain ⟨latest, -, hdone, -, -, hlog⟩ := hnumbers fun bar hbar =>
    hfinite bar (by rw [hsplit]; exact List.mem_append_right _ hbar)
  rw [show sixtyDays.log = [] from rfl, List.nil_append] at hlog
  have hsize : window.length = 50 := by
    rw [hlength, hcount]
    decide
  exact ⟨_, hsize, hdone, hlog⟩

/-- A world with one instrument, whose symbol is blank. -/
def blankNamed : World where
  store := ({} : Store).addInstrument ⟨" ", "NASDAQ", "", true⟩
  clock := ⟨0, fun _ => .epoch, 0⟩

/-- An instrument with a blank symbol is found, and still its indicators are refused: the stage does
not tell how many bars are missing. -/
theorem indicators_of_blank_refused :
    let done := blankNamed.after (handle {} (.indicatorRequested " " "NASDAQ")).run
    blankNamed.store.findInstrument " " = some ⟨" ", "NASDAQ", "", true⟩ ∧
      blankNamed.faults = Faults.none ∧
      blankNamed.store.priceCount " " < ({} : Lookbacks).requiredBars ∧
      done.1 = .error (.malformed .emptySymbol) ∧
      done.1 ≠ .ok (.endedEarly (.insufficientData ({} : Lookbacks).requiredBars
        (blankNamed.store.priceCount " "))) := by
  have hdone : (blankNamed.after (handle {} (.indicatorRequested " " "NASDAQ")).run).1 =
      .error (.malformed .emptySymbol) := rfl
  refine ⟨rfl, rfl, by decide, hdone, ?_⟩
  simp [hdone]

end Pipeline

end MarketSignals
