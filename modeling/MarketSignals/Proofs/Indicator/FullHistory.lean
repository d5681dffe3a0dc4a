import Mathlib.Algebra.Group.Nat.Defs
import MarketSignals.Proofs.Indicator.AnyOrder
import MarketSignals.Proofs.Indicator.Windows

/-!
# Full periods

Each indicator has an answer for a history that is too short: a neutral value, the latest close, a
mean of what there is. The number of bars that a computation asks for leaves no room for any of
these. Every indicator of a snapshot reads a full window at the end of the series, or the whole
series where it is an exponential average.

The number of required bars is a maximum of sums such as a period and one. They are sums of machine
words, so periods are taken to be such that the sums stay below a machine word.

## Main results

* `Lookbacks.requiredBars_covers`: the required bars cover every lookback.
* `Lookbacks.fullPeriods_readings`: enough bars give every indicator its full period.
* `Lookbacks.compute_fullPeriods`: so does every series that has a snapshot.
-/

namespace MarketSignals

/-! ### Windows -/

/-- A window of a number of entries that ends some entries before the end of a list. -/
def IsWindow {α : Type} (count age : Nat) (list window : List α) : Prop :=
  window.length = count ∧ ∃ older newer, list = older ++ window ++ newer ∧ newer.length = age

namespace Series

variable {α : Type} {period : Nat}

/-- The trailing part of a list that is long enough is a window at its end. -/
theorem isWindow_trailing {list : List α} (h : period ≤ list.length) :
    IsWindow period 0 list (trailing period list) := by
  refine ⟨by rw [length_trailing, Nat.min_eq_left h], list.take (list.length - period), [], ?_, rfl⟩
  rw [List.append_nil, trailing, List.take_append_drop]

end Series

namespace Indicator

open Series

variable {bars : List Bar} {period : Nat}

/-- A window before the newest bars is one of the series. -/
theorem isWindow_earlierWindow {age : Nat} (h : period + age ≤ bars.length) :
    IsWindow period age bars (earlierWindow bars period age) := by
  have hlong : period ≤ (bars.take (bars.length - age)).length := by
    rw [List.length_take]
    omega
  obtain ⟨hlength, older, newer, hsplit, hnewer⟩ := isWindow_trailing hlong
  obtain rfl : newer = [] := List.eq_nil_of_length_eq_zero hnewer
  refine ⟨hlength, older, bars.drop (bars.length - age), ?_, ?_⟩
  · rw [earlierWindow, ← List.append_nil (older ++ _), ← hsplit, List.take_append_drop]
  · rw [List.length_drop]
    omega

/-- The newest window is the end of the series. -/
theorem earlierWindow_zero (bars : List Bar) (period : Nat) :
    earlierWindow bars period 0 = trailing period bars := by
  rw [earlierWindow, Nat.sub_zero, List.take_length]

/-! ### Ranges -/

/-- The highest and the lowest price of some bars, and the close of the last. -/
structure Ranged (window : List Bar) (highest lowest close : Float) : Prop where
  highest : max? (window.map Bar.high) = some highest
  lowest : min? (window.map Bar.low) = some lowest
  close : window.getLast?.map Bar.close = some close

/-- Some bars have a range. -/
theorem exists_ranged {window : List Bar} (h : window ≠ []) :
    ∃ highest lowest close, Ranged window highest lowest close := by
  obtain ⟨first, rest, rfl⟩ := List.exists_cons_of_ne_nil h
  exact ⟨_, _, _, rfl, rfl, by rw [List.getLast?_eq_some_getLast h]; rfl⟩

variable {window : List Bar} {highest lowest close : Float}

/-- The place of the close in a range. -/
theorem percentK_of_ranged (h : Ranged window highest lowest close) :
    percentK window = if highest - lowest == 0 then neutralStochastic
      else (close - lowest) / (highest - lowest) * 100 := by
  obtain ⟨last, hlast, rfl⟩ := Option.map_eq_some_iff.mp h.close
  rw [percentK, h.highest, h.lowest, hlast]

/-- The place of the close below the top of a range. -/
theorem percentR_of_ranged (h : Ranged window highest lowest close) :
    percentR window = if highest - lowest == 0 then neutralWilliamsR
      else (highest - close) / (highest - lowest) * -100 := by
  obtain ⟨last, hlast, rfl⟩ := Option.map_eq_some_iff.mp h.close
  rw [percentR, h.highest, h.lowest, hlast]

/-! ### Signal lines -/

/-- The end of the signal line of a series, none where the series has no end. -/
def signalEnd? (method : SignalLine) (signal : Nat) (series : List Float) : Option Float :=
  match method with
  | .average => (emaSeries series signal).getLast?
  | .scaled => series.getLast?.map (· * scaledSignalFactor)

end Indicator

namespace Lookbacks

open Indicator Series

variable {l : Lookbacks} {bars : List Bar}

/-! ### Required bars -/

/-- The periods of all indicators. -/
def periods (l : Lookbacks) : List Nat :=
  [l.rsi, l.smaShort, l.smaLong, l.emaFast, l.emaSlow, l.macdSignal, l.bollinger, l.stochasticK,
    l.stochasticD, l.williams, l.atr]

/-- Periods that can be used: none is zero, each is a machine word, and so are the sums that are
taken of them. -/
structure Usable (l : Lookbacks) : Prop where
  positive : ∀ period ∈ l.periods, 1 ≤ period
  word : ∀ period ∈ l.periods, period < wordValues
  rsi : l.rsi + 1 < wordValues
  stochastic : l.stochasticK + l.stochasticD < wordValues
  atr : l.atr + 1 < wordValues

/-- With periods that can be used every computation has the outcome of `compute`. -/
theorem Usable.compute?_eq (h : l.Usable) (symbol : String) (bars : List Bar) :
    l.compute? symbol bars = some (l.compute symbol bars) :=
  compute?_of_sumsFit ⟨h.rsi, h.stochastic, h.atr⟩ symbol bars

/-- A maximum is no less than the numbers it is taken of. -/
theorem le_foldl_max {count start : Nat} {counts : List Nat} (h : count ≤ start ∨ count ∈ counts) :
    count ≤ counts.foldl max start := by
  induction counts generalizing start with
  | nil => exact h.resolve_right List.not_mem_nil
  | cons first rest ih =>
      refine ih ?_
      rcases h with hstart | hmem
      · exact .inl (Nat.le_trans hstart (Nat.le_max_left _ _))
      rcases List.mem_cons.mp hmem with rfl | hmem
      · exact .inl (Nat.le_max_right _ _)
      · exact .inr hmem

/-- The required bars cover every lookback: differences and true ranges take one bar more than there
are of them, and recent places one bar more for each but the newest. -/
theorem requiredBars_covers (l : Lookbacks) :
    l.rsi + 1 ≤ l.requiredBars ∧ l.smaShort ≤ l.requiredBars ∧ l.smaLong ≤ l.requiredBars ∧
      l.emaFast ≤ l.requiredBars ∧ l.emaSlow ≤ l.requiredBars ∧ l.bollinger ≤ l.requiredBars ∧
      l.stochasticK + l.stochasticD - 1 ≤ l.requiredBars ∧ l.williams ≤ l.requiredBars ∧
      l.atr + 1 ≤ l.requiredBars := by
  refine ⟨?_, ?_, ?_, ?_, ?_, ?_, ?_, ?_, ?_⟩ <;> exact le_foldl_max (.inr (by simp))

/-- The required bars of usable periods are a machine word. -/
theorem requiredBars_lt (h : l.Usable) : l.requiredBars < wordValues := by
  obtain ⟨-, hword, hrsi, hstochastic, hatr⟩ := h
  have hminBars : minBars < wordValues := by decide
  simp only [periods, List.forall_mem_cons] at hword
  simp only [requiredBars, List.foldl_cons, List.foldl_nil, Nat.max_lt]
  omega

/-! ### Readings of full periods -/

/-- Readings that take every period in full. -/
structure FullPeriods (l : Lookbacks) (bars : List Bar) (r : Readings) : Prop where
  /-- Relative strength averages as many differences as its period says. -/
  rsi : ∃ deltas, IsWindow l.rsi 0 (closeDeltas bars) deltas ∧
    r.rsi = rsiOf (averageGain deltas l.rsi) (averageLoss deltas l.rsi)
  /-- The averages' difference is that of the two series' last entries, and its signal line is read
  off the whole series of differences. -/
  macd : ∃ series line signal, series = macdSeries (bars.map Bar.close) l.emaFast l.emaSlow ∧
    series.length = bars.length ∧ series.getLast? = some line ∧
    signalEnd? l.signalLine l.macdSignal series = some signal ∧
    r.macd = ⟨line, signal, line - signal⟩
  /-- The short mean is one of a full window of closes. -/
  smaShort : ∃ closes, IsWindow l.smaShort 0 (bars.map Bar.close) closes ∧
    r.smaShort = mean closes
  /-- The long mean is one of a full window of closes. -/
  smaLong : ∃ closes, IsWindow l.smaLong 0 (bars.map Bar.close) closes ∧ r.smaLong = mean closes
  /-- The fast exponential average is the last of the whole series. -/
  emaFast : (emaSeries (bars.map Bar.close) l.emaFast).getLast? = some r.emaFast
  /-- The slow exponential average is the last of the whole series. -/
  emaSlow : (emaSeries (bars.map Bar.close) l.emaSlow).getLast? = some r.emaSlow
  /-- The bands stand around the mean of a full window of closes, at its deviation. -/
  bollinger : ∃ closes deviation, IsWindow l.bollinger 0 (bars.map Bar.close) closes ∧
    deviation = Float.sqrt
      (sum (closes.map fun c => (c - mean closes) * (c - mean closes)) / Float.ofNat l.bollinger) ∧
    r.bollinger = ⟨mean closes + l.bollingerDeviations * deviation, mean closes,
      mean closes - l.bollingerDeviations * deviation⟩
  /-- As many places are averaged as asked for, the newest first, each in the range of a full window
  of bars. -/
  stochastic : ∃ places, places.length = l.stochasticD ∧
    places.head? = some r.stochastic.k ∧ r.stochastic.d = mean places ∧
    ∀ age, ∀ h : age < places.length, ∃ window highest lowest close,
      IsWindow l.stochasticK age bars window ∧ Ranged window highest lowest close ∧
      places[age] = if highest - lowest == 0 then neutralStochastic
        else (close - lowest) / (highest - lowest) * 100
  /-- Williams %R is taken in the range of a full window of bars. -/
  williamsR : ∃ window highest lowest close, IsWindow l.williams 0 bars window ∧
    Ranged window highest lowest close ∧
    r.williamsR = if highest - lowest == 0 then neutralWilliamsR
      else (highest - close) / (highest - lowest) * -100
  /-- The mean range is one of a full window of true ranges. -/
  atr : ∃ ranges, IsWindow l.atr 0 (trueRanges bars) ranges ∧ r.atr = mean ranges

end Lookbacks

namespace Indicator

open Series

variable {bars : List Bar} {period : Nat}

/-! ### Each indicator -/

/-- Relative strength of enough bars averages a full window of differences. -/
theorem rsi_reads_window (hpos : 1 ≤ period) (h : period + 1 ≤ bars.length) :
    ∃ deltas, IsWindow period 0 (closeDeltas bars) deltas ∧
      rsi bars period = rsiOf (averageGain deltas period) (averageLoss deltas period) := by
  have henough : ¬ (period = 0 ∨ bars.length < period + 1) := by omega
  have hlong : period ≤ (closeDeltas bars).length := by
    rw [closeDeltas_eq_neighbours, length_neighbours]
    omega
  exact ⟨_, isWindow_trailing hlong, if_neg henough⟩

/-- The mean close of enough bars is one of a full window. -/
theorem sma_reads_window (hpos : 1 ≤ period) (h : period ≤ bars.length) :
    ∃ closes, IsWindow period 0 (bars.map Bar.close) closes ∧ sma bars period = mean closes := by
  have hlong : period ≤ (bars.map Bar.close).length := by rwa [List.length_map]
  refine ⟨_, isWindow_trailing hlong, ?_⟩
  rw [sma, sma?, if_pos (covers_iff.mpr ⟨hpos, hlong⟩), Option.getD_some]

/-- The exponential average of enough bars is the last of the whole series. -/
theorem ema_reads_series (hpos : 1 ≤ period) (h : period ≤ bars.length) :
    (emaSeries (bars.map Bar.close) period).getLast? = some (ema bars period) := by
  have hlong : period ≤ (bars.map Bar.close).length := by rwa [List.length_map]
  have hsome : emaSeries (bars.map Bar.close) period ≠ [] := by
    rw [← List.length_pos_iff, length_emaSeries]
    exact Nat.lt_of_lt_of_le hpos hlong
  rw [ema, ema?, if_pos (covers_iff.mpr ⟨hpos, hlong⟩), List.getLast?_eq_some_getLast hsome,
    Option.getD_some]

/-- The difference of the averages has one entry for each number. -/
theorem length_macdSeries (closes : List Float) (fast slow : Nat) :
    (macdSeries closes fast slow).length = closes.length := by
  simp [macdSeries]

/-- The averages' difference of enough bars is read off the whole series. -/
theorem macd_reads_series {fast slow signal : Nat} (method : SignalLine) (hpos : 1 ≤ slow)
    (h : slow ≤ bars.length) : ∃ series line signalValue,
      series = macdSeries (bars.map Bar.close) fast slow ∧ series.length = bars.length ∧
      series.getLast? = some line ∧ signalEnd? method signal series = some signalValue ∧
      macd bars fast slow signal method = ⟨line, signalValue, line - signalValue⟩ := by
  have hlength : (macdSeries (bars.map Bar.close) fast slow).length = bars.length := by
    rw [length_macdSeries, List.length_map]
  have hline : macdSeries (bars.map Bar.close) fast slow ≠ [] := by
    rw [← List.length_pos_iff, hlength]
    exact Nat.lt_of_lt_of_le hpos h
  rw [macd, if_neg (Nat.not_lt.mpr h)]
  cases method with
  | average =>
      have hsignal : emaSeries (macdSeries (bars.map Bar.close) fast slow) signal ≠ [] := by
        rwa [← List.length_pos_iff, length_emaSeries, List.length_pos_iff]
      refine ⟨_, _, _, rfl, hlength, List.getLast?_eq_some_getLast hline,
        List.getLast?_eq_some_getLast hsignal, ?_⟩
      simp only [List.getLast?_eq_some_getLast hline, List.getLast?_eq_some_getLast hsignal,
        Option.getD_some]
  | scaled =>
      refine ⟨_, _, _, rfl, hlength, List.getLast?_eq_some_getLast hline,
        by rw [signalEnd?, List.getLast?_eq_some_getLast hline, Option.map_some], ?_⟩
      simp only [List.getLast?_eq_some_getLast hline, Option.getD_some]

/-- The bands of enough bars stand around the mean of a full window. -/
theorem bollinger_reads_window (deviations : Float) (hpos : 1 ≤ period)
    (h : period ≤ bars.length) : ∃ closes deviation,
      IsWindow period 0 (bars.map Bar.close) closes ∧
      deviation = Float.sqrt
        (sum (closes.map fun c => (c - mean closes) * (c - mean closes)) / Float.ofNat period) ∧
      bollinger bars period deviations = ⟨mean closes + deviations * deviation, mean closes,
        mean closes - deviations * deviation⟩ := by
  have hlong : period ≤ (bars.map Bar.close).length := by rwa [List.length_map]
  have hcovers := covers_iff.mpr ⟨hpos, hlong⟩
  refine ⟨_, _, isWindow_trailing hlong, rfl, ?_⟩
  rw [bollinger, sma?, if_pos hcovers, deviation?, variance?, if_pos hcovers]
  rfl

/-- The place of the close in a full window of bars. -/
theorem percentK_reads_window {age : Nat} {window : List Bar} (hpos : 1 ≤ period)
    (h : IsWindow period age bars window) : ∃ highest lowest close,
      Ranged window highest lowest close ∧
      percentK window = if highest - lowest == 0 then neutralStochastic
        else (close - lowest) / (highest - lowest) * 100 := by
  have hsome : window ≠ [] := by
    rw [← List.length_pos_iff, h.1]
    exact hpos
  obtain ⟨highest, lowest, close, hranged⟩ := exists_ranged hsome
  exact ⟨highest, lowest, close, hranged, percentK_of_ranged hranged⟩

/-- The recent places of enough bars are those of full windows, each a bar older than the one
before. -/
theorem stochastic_of_le {k d : Nat} (hk : 1 ≤ k) (hd : 1 ≤ d) (h : k + d - 1 ≤ bars.length) :
    stochastic bars k d = ⟨percentK (earlierWindow bars k 0),
      mean ((List.range d).map fun age => percentK (earlierWindow bars k age))⟩ := by
  have henough : ¬ (k = 0 ∨ bars.length < k) := by omega
  obtain ⟨rest, rfl⟩ := Nat.exists_eq_add_one_of_ne_zero (Nat.one_le_iff_ne_zero.mp hd)
  rw [stochastic, if_neg henough, percentKs_of_le hd h, List.range_succ_eq_map, List.map_cons]
  rfl

/-- The places of enough bars are as many as asked for, each in the range of a full window. -/
theorem stochastic_reads_windows {k d : Nat} (hk : 1 ≤ k) (hd : 1 ≤ d)
    (h : k + d - 1 ≤ bars.length) : ∃ places, places.length = d ∧
      places.head? = some (stochastic bars k d).k ∧ (stochastic bars k d).d = mean places ∧
      ∀ age, ∀ h : age < places.length, ∃ window highest lowest close,
        IsWindow k age bars window ∧ Ranged window highest lowest close ∧
        places[age] = if highest - lowest == 0 then neutralStochastic
          else (close - lowest) / (highest - lowest) * 100 := by
  have hlength : ((List.range d).map fun age => percentK (earlierWindow bars k age)).length = d :=
    by rw [List.length_map, List.length_range]
  rw [stochastic_of_le hk hd h]
  refine ⟨_, hlength, ?_, rfl, fun age hage => ?_⟩
  · obtain ⟨rest, rfl⟩ := Nat.exists_eq_add_one_of_ne_zero (Nat.one_le_iff_ne_zero.mp hd)
    rw [List.range_succ_eq_map, List.map_cons, List.head?_cons]
  · have hwindow := isWindow_earlierWindow (show k + age ≤ bars.length by omega)
    obtain ⟨highest, lowest, close, hranged, hplace⟩ := percentK_reads_window hk hwindow
    refine ⟨_, highest, lowest, close, hwindow, hranged, ?_⟩
    rw [← hplace, List.getElem_map, List.getElem_range]

/-- Williams %R of enough bars is the place in their last window. -/
theorem williamsR_of_le (hpos : 1 ≤ period) (h : period ≤ bars.length) :
    williamsR bars period = percentR (trailing period bars) := by
  rw [williamsR, if_pos (covers_iff.mpr ⟨hpos, h⟩)]

/-- Williams %R of enough bars is taken in the range of a full window. -/
theorem williamsR_reads_window (hpos : 1 ≤ period) (h : period ≤ bars.length) :
    ∃ window highest lowest close, IsWindow period 0 bars window ∧
      Ranged window highest lowest close ∧
      williamsR bars period = if highest - lowest == 0 then neutralWilliamsR
        else (highest - close) / (highest - lowest) * -100 := by
  have hwindow := isWindow_trailing h
  have hsome : trailing period bars ≠ [] := by
    rw [← List.length_pos_iff, hwindow.1]
    exact hpos
  obtain ⟨highest, lowest, close, hranged⟩ := exists_ranged hsome
  refine ⟨_, highest, lowest, close, hwindow, hranged, ?_⟩
  rw [williamsR_of_le hpos h, percentR_of_ranged hranged]

/-- The mean range of enough bars is one of a full window of true ranges. -/
theorem atr_reads_window (h : period + 1 ≤ bars.length) :
    ∃ ranges, IsWindow period 0 (trueRanges bars) ranges ∧ atr bars period = mean ranges := by
  have hlong : period ≤ (trueRanges bars).length := by
    rw [trueRanges_eq_neighbours, length_neighbours]
    omega
  exact ⟨_, isWindow_trailing hlong, rfl⟩

end Indicator

namespace Lookbacks

open Indicator Series

variable {l : Lookbacks} {bars : List Bar}

/-- Enough bars give every indicator its full period. -/
theorem fullPeriods_readings (hpos : ∀ period ∈ l.periods, 1 ≤ period)
    (h : l.requiredBars ≤ bars.length) : l.FullPeriods bars (l.readings bars) := by
  have enough {count : Nat} (hcount : count ≤ l.requiredBars) : count ≤ bars.length :=
    Nat.le_trans hcount h
  simp only [periods, List.forall_mem_cons] at hpos
  obtain ⟨hrsi, hsmaShort, hsmaLong, hemaFast, hemaSlow, -, hbollinger, hk, hd, hwilliams, -, -⟩ :=
    hpos
  obtain ⟨crsi, csmaShort, csmaLong, cemaFast, cemaSlow, cbollinger, cplaces, cwilliams, catr⟩ :=
    l.requiredBars_covers
  exact {
    rsi := rsi_reads_window hrsi (enough crsi)
    macd := macd_reads_series l.signalLine hemaSlow (enough cemaSlow)
    smaShort := sma_reads_window hsmaShort (enough csmaShort)
    smaLong := sma_reads_window hsmaLong (enough csmaLong)
    emaFast := ema_reads_series hemaFast (enough cemaFast)
    emaSlow := ema_reads_series hemaSlow (enough cemaSlow)
    bollinger := bollinger_reads_window _ hbollinger (enough cbollinger)
    stochastic := stochastic_reads_windows hk hd (enough cplaces)
    williamsR := williamsR_reads_window hwilliams (enough cwilliams)
    atr := atr_reads_window (enough catr) }

/-- **The required bars cover every lookback.** With usable periods, the number of required bars is a
machine word, and a series that has a snapshot has that many bars: it has a newest bar, whose time
the snapshot carries, and every indicator of the snapshot reads its full period of the sorted bars. -/
theorem compute_fullPeriods {symbol : String} {snapshot : Snapshot} (husable : l.Usable)
    (h : l.compute symbol bars = .ok snapshot) :
    l.requiredBars < wordValues ∧ l.requiredBars ≤ bars.length ∧
      (∃ newest, (sortByTime bars).getLast? = some newest ∧ snapshot.computedAt = newest.time) ∧
      l.FullPeriods (sortByTime bars) snapshot.readings := by
  obtain ⟨henough, -, newest, hnewest, rfl⟩ := compute_eq_ok h
  have hsorted : l.requiredBars ≤ (sortByTime bars).length := by rwa [length_sortByTime]
  exact ⟨requiredBars_lt husable, henough, ⟨newest, hnewest, rfl⟩,
    fullPeriods_readings husable.positive hsorted⟩

/-- The default periods are usable, and fifty days have a snapshot of them. -/
theorem compute_fullPeriods_fiftyDays : ({} : Lookbacks).Usable ∧ ∃ snapshot,
    ({} : Lookbacks).compute "AAPL" fiftyDays = .ok snapshot ∧
      ({} : Lookbacks).FullPeriods (sortByTime fiftyDays) snapshot.readings := by
  have husable : ({} : Lookbacks).Usable :=
    ⟨by decide, by decide, by decide, by decide, by decide⟩
  obtain ⟨snapshot, hcompute⟩ := exists_compute_fiftyDays
  obtain ⟨-, -, -, hfull⟩ := compute_fullPeriods husable hcompute
  exact ⟨husable, _, hcompute, hfull⟩

end Lookbacks

end MarketSignals
