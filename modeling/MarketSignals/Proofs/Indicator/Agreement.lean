import Mathlib.Data.List.Induction
import MarketSignals.Proofs.Indicator.FullHistory

/-!
# Indicators that agree

Some indicators of a snapshot are computed twice. The difference of the averages takes two whole
series of exponential averages, which no period guards, while each average alone is read at the end
of its own series, and only where the series is long enough. The bands compute the mean they stand
around once more. A snapshot is only taken of enough bars, and there the two ways agree bit for bit.

An exponential average is a fold over a series. The series of averages are the folds over its
prefixes, so their difference at each place is what the two averages of the closes up to there
differ by.

## Main results

* `emaSeries_eq_prefixes`, `macdSeries_eq_prefixes`: entries of a series are averages of prefixes.
* `Lookbacks.compute_agrees`: the indicators of a snapshot agree.
-/

namespace MarketSignals

/-! ### Averages of prefixes -/

namespace Series

variable {period : ℕ}

/-- The exponential average of a series, folded from its first number; zero for no numbers. -/
def exponential (period : ℕ) : List Float → Float
  | [] => 0
  | first :: rest => rest.foldl (fun previous value => emaStep period value previous) first

/-- One more number is one more step. -/
theorem exponential_concat {values : List Float} (hsome : values ≠ []) (value : Float) :
    exponential period (values ++ [value]) =
      emaStep period value (exponential period values) := by
  obtain ⟨first, rest, rfl⟩ := List.exists_cons_of_ne_nil hsome
  exact List.foldl_concat _ first value rest

theorem emaFrom_concat (previous value : Float) (values : List Float) :
    emaFrom period previous (values ++ [value]) = emaFrom period previous values ++
      [emaStep period value
        (values.foldl (fun previous value => emaStep period value previous) previous)] := by
  induction values generalizing previous with
  | nil => rfl
  | cons first rest ih =>
      rw [List.cons_append, emaFrom, emaFrom, ih, List.cons_append]
      rfl

/-- One more number gives a series of averages one more entry: the average of all. -/
theorem emaSeries_concat (values : List Float) (value : Float) :
    emaSeries (values ++ [value]) period =
      emaSeries values period ++ [exponential period (values ++ [value])] := by
  cases values with
  | nil => rfl
  | cons first rest =>
      rw [exponential_concat (List.cons_ne_nil first rest), List.cons_append, emaSeries, emaSeries,
        emaFrom_concat, List.cons_append]
      rfl

/-- **The entries of a series of averages are the averages of its prefixes.** -/
theorem emaSeries_eq_prefixes (values : List Float) (period : ℕ) :
    emaSeries values period = (List.range values.length).map fun i =>
      exponential period (values.take (i + 1)) := by
  induction values using List.reverseRecOn with
  | nil => rfl
  | append_singleton front value ih =>
      have hfront : (List.range front.length).map
          (fun i => exponential period ((front ++ [value]).take (i + 1))) =
            (List.range front.length).map fun i => exponential period (front.take (i + 1)) := by
        refine List.map_congr_left fun i hi => ?_
        rw [List.take_append_of_le_length (List.mem_range.mp hi)]
      have hall : (front ++ [value]).take (front.length + 1) = front ++ [value] :=
        List.take_of_length_le (by simp)
      rw [emaSeries_concat, ih, List.length_append, List.length_singleton, List.range_succ,
        List.map_append, hfront, List.map_singleton, hall]

/-- The last entry of a series of averages is the average of the series. -/
theorem getLast?_emaSeries {values : List Float} (hsome : values ≠ []) :
    (emaSeries values period).getLast? = some (exponential period values) := by
  rw [← List.dropLast_append_getLast hsome, emaSeries_concat, List.getLast?_concat]

end Series

namespace Indicator

open Series

/-- What two exponential averages of the first closes differ by, for each number of them. -/
def prefixDifferences (closes : List Float) (fast slow : ℕ) : List Float :=
  (List.range closes.length).map fun i =>
    exponential fast (closes.take (i + 1)) - exponential slow (closes.take (i + 1))

/-- The difference of the averages is that of the averages of prefixes. -/
theorem macdSeries_eq_prefixes (closes : List Float) (fast slow : ℕ) :
    macdSeries closes fast slow = prefixDifferences closes fast slow := by
  rw [macdSeries, emaSeries_eq_prefixes, emaSeries_eq_prefixes, List.zipWith_map, List.zipWith_self]
  rfl

/-- The last difference is that of the averages of all closes. -/
theorem getLast?_prefixDifferences {closes : List Float} (hsome : closes ≠ []) (fast slow : ℕ) :
    (prefixDifferences closes fast slow).getLast? =
      some (exponential fast closes - exponential slow closes) := by
  obtain ⟨count, hcount⟩ :=
    Nat.exists_eq_add_one_of_ne_zero (mt List.eq_nil_of_length_eq_zero hsome)
  rw [prefixDifferences, hcount, List.range_succ, List.map_append, List.map_singleton,
    List.getLast?_concat, ← hcount, List.take_length]

variable {bars : List Bar} {period : ℕ}

theorem closes_ne_nil (hpos : 1 ≤ period) (h : period ≤ bars.length) :
    bars.map Bar.close ≠ [] := by
  rw [← List.length_pos_iff, List.length_map]
  exact Nat.lt_of_lt_of_le hpos h

/-- The exponential average of enough bars is folded over all closes. -/
theorem ema_eq_exponential (hpos : 1 ≤ period) (h : period ≤ bars.length) :
    ema bars period = exponential period (bars.map Bar.close) := by
  have hlast := ema_reads_series hpos h
  rw [getLast?_emaSeries (closes_ne_nil hpos h)] at hlast
  exact (Option.some.inj hlast).symm

/-- The line of enough bars is the difference of the two averages, and its signal line is read off
the differences of the averages of prefixes. -/
theorem macd_agrees {fast slow : ℕ} (signal : ℕ) (method : SignalLine) (hfast : 1 ≤ fast)
    (hslow : 1 ≤ slow) (hfast' : fast ≤ bars.length) (hslow' : slow ≤ bars.length) :
    ∃ value, macd bars fast slow signal method =
        ⟨ema bars fast - ema bars slow, value, ema bars fast - ema bars slow - value⟩ ∧
      value = match method with
        | .average => exponential signal (prefixDifferences (bars.map Bar.close) fast slow)
        | .scaled => (ema bars fast - ema bars slow) * scaledSignalFactor := by
  obtain ⟨series, line, value, rfl, -, hline, hvalue, hmacd⟩ :=
    @macd_reads_series bars fast slow signal method hslow hslow'
  rw [macdSeries_eq_prefixes] at hline hvalue
  have hend := getLast?_prefixDifferences (closes_ne_nil hslow hslow') fast slow
  rw [← ema_eq_exponential hfast hfast', ← ema_eq_exponential hslow hslow'] at hend
  obtain rfl : line = _ := Option.some.inj (hline.symm.trans hend)
  refine ⟨value, hmacd, ?_⟩
  cases method with
  | average =>
      have hdifferences : prefixDifferences (bars.map Bar.close) fast slow ≠ [] := fun hnil => by
        rw [hnil] at hend
        cases hend
      rw [signalEnd?, getLast?_emaSeries hdifferences] at hvalue
      exact (Option.some.inj hvalue).symm
  | scaled =>
      rw [signalEnd?, hend] at hvalue
      exact (Option.some.inj hvalue).symm

/-- The bands stand around the mean of their period. Both take the latest close where there is no
such mean. -/
theorem bollinger_middle (bars : List Bar) (period : ℕ) (deviations : Float) :
    (bollinger bars period deviations).middle = sma bars period := by
  rw [bollinger, sma, deviation?, variance?, sma?]
  split_ifs <;> rfl

end Indicator

namespace Lookbacks

open Indicator Series

/-- **Indicators of one snapshot agree.** For all periods of the exponential averages that are not
zero, and every series that has a snapshot, bit for bit: the line is the difference of the two
averages; its distance from the signal line is their difference; the signal line is the exponential
average of the differences of the averages of the first closes, or the line scaled; and the bands
stand around the short mean where their periods are the same. -/
theorem compute_agrees {l : Lookbacks} {symbol : String} {bars : List Bar} {snapshot : Snapshot}
    (hfast : 1 ≤ l.emaFast) (hslow : 1 ≤ l.emaSlow) (h : l.compute symbol bars = .ok snapshot) :
    snapshot.readings.macd.line = snapshot.readings.emaFast - snapshot.readings.emaSlow ∧
    snapshot.readings.macd.histogram =
      snapshot.readings.macd.line - snapshot.readings.macd.signal ∧
    (l.signalLine = .average → snapshot.readings.macd.signal = exponential l.macdSignal
      (prefixDifferences ((sortByTime bars).map Bar.close) l.emaFast l.emaSlow)) ∧
    (l.signalLine = .scaled →
      snapshot.readings.macd.signal = snapshot.readings.macd.line * 0.8) ∧
    (l.bollinger = l.smaShort →
      snapshot.readings.bollinger.middle = snapshot.readings.smaShort) := by
  obtain ⟨henough, -, newest, -, rfl⟩ := compute_eq_ok h
  rw [← length_sortByTime] at henough
  obtain ⟨-, -, -, hcoverFast, hcoverSlow, -⟩ := requiredBars_covers l
  obtain ⟨value, hmacd, hvalue⟩ := macd_agrees l.macdSignal l.signalLine hfast hslow
    (Nat.le_trans hcoverFast henough) (Nat.le_trans hcoverSlow henough)
  simp only [readings, hmacd]
  refine ⟨trivial, trivial, fun haverage => ?_, fun hscaled => ?_, fun hsame => ?_⟩
  · rw [hvalue, haverage]
  · rw [hvalue, hscaled]
    rfl
  · rw [bollinger_middle, hsame]

/-- The two ways agree for fifty days. -/
theorem compute_agrees_fiftyDays : ∃ snapshot,
    ({} : Lookbacks).compute "AAPL" fiftyDays = .ok snapshot ∧
      snapshot.readings.macd.line = snapshot.readings.emaFast - snapshot.readings.emaSlow ∧
      snapshot.readings.bollinger.middle = snapshot.readings.smaShort := by
  obtain ⟨snapshot, hcompute⟩ := exists_compute_fiftyDays
  obtain ⟨hline, -, -, -, hmiddle⟩ := compute_agrees (by decide) (by decide) hcompute
  exact ⟨snapshot, hcompute, hline, hmiddle rfl⟩

end Lookbacks

end MarketSignals
