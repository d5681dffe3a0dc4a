import MarketSignals.Indicator.Momentum
import MarketSignals.Indicator.Trend

/-!
# How far indicators look back

Most indicators read a window at the end of a series and nothing before it, bit for bit and whatever
the prices are. A window of prices reaches back by its period. Differences and true ranges take one
bar more, since each has a former close in it. The mean of several recent places takes one bar more
for each place but the newest.

The exponential averages, the difference of two of them and the balance of volume are not windowed:
they start at the first bar of a series, so they read all of it.

## Main results

* `sma?_append`, `variance?_append`: statistics of a period read the end of the numbers.
* `trailing_neighbours_append`: values of neighbouring bars take one bar more than there are values.
* `percentKs_append`: `d` places in ranges of `k` bars take `k + d - 1` bars.
* `lookbacks_bounded`: what lies before the window of an indicator does not matter.
-/

namespace MarketSignals

/-! ### Statistics -/

namespace Series

variable {α : Type} {period : Nat}

/-- A period covers a series exactly where it is not zero and the series is long enough. -/
theorem covers_iff {values : List α} :
    covers period values = true ↔ 1 ≤ period ∧ period ≤ values.length := by
  simp [covers, Nat.one_le_iff_ne_zero]

/-- A period that covers the back of a series covers the series. -/
theorem covers_append {front back : List α} (hpos : 1 ≤ period) (h : period ≤ back.length) :
    covers period (front ++ back) = covers period back := by
  have hlonger : period ≤ (front ++ back).length := by
    rw [List.length_append]
    exact Nat.le_add_left_of_le h
  rw [covers_iff.mpr ⟨hpos, h⟩, covers_iff.mpr ⟨hpos, hlonger⟩]

variable {front back : List Float}

theorem sma?_append (hpos : 1 ≤ period) (h : period ≤ back.length) :
    sma? (front ++ back) period = sma? back period := by
  rw [sma?, sma?, covers_append hpos h, trailing_append h]

theorem variance?_append (hpos : 1 ≤ period) (h : period ≤ back.length) :
    variance? (front ++ back) period = variance? back period := by
  rw [variance?, variance?, covers_append hpos h, trailing_append h]

theorem deviation?_append (hpos : 1 ≤ period) (h : period ≤ back.length) :
    deviation? (front ++ back) period = deviation? back period := by
  rw [deviation?, deviation?, variance?_append hpos h]

theorem sma?_isSome {values : List Float} (hpos : 1 ≤ period) (h : period ≤ values.length) :
    (sma? values period).isSome := by
  rw [sma?, if_pos (covers_iff.mpr ⟨hpos, h⟩)]
  rfl

theorem deviation?_isSome {values : List Float} (hpos : 1 ≤ period) (h : period ≤ values.length) :
    (deviation? values period).isSome := by
  rw [deviation?, variance?, if_pos (covers_iff.mpr ⟨hpos, h⟩)]
  rfl

end Series

namespace Indicator

open Series

variable {front back : List Bar} {period : Nat}

/-! ### Neighbouring bars -/

/-- What each pair of neighbours in a list comes to. -/
def neighbours {α β : Type} (value : α → α → β) (list : List α) : List β :=
  List.zipWith value list list.tail

theorem length_neighbours {α β : Type} (value : α → α → β) (list : List α) :
    (neighbours value list).length = list.length - 1 := by
  rw [neighbours, List.length_zipWith, List.length_tail]
  omega

theorem closeDeltas_eq_neighbours :
    ∀ bars, closeDeltas bars = neighbours (fun former bar => bar.close - former.close) bars
  | [] | [_] => rfl
  | former :: bar :: rest => by
      rw [closeDeltas, closeDeltas_eq_neighbours (bar :: rest)]
      rfl

theorem trueRanges_eq_neighbours :
    ∀ bars, trueRanges bars =
      neighbours (fun former bar => trueRange bar.high bar.low former.close) bars
  | [] | [_] => rfl
  | former :: bar :: rest => by
      rw [trueRanges, trueRanges_eq_neighbours (bar :: rest)]
      rfl

/-- The last values of neighbours take one entry more than there are values. -/
theorem trailing_neighbours_append {α β : Type} {value : α → α → β} {front back : List α}
    (h : period + 1 ≤ back.length) :
    trailing period (neighbours value (front ++ back)) =
      trailing period (neighbours value back) := by
  induction front with
  | nil => rfl
  | cons first front ih =>
      rw [← ih]
      obtain ⟨second, rest, hrest⟩ : ∃ second rest, front ++ back = second :: rest := by
        refine List.exists_cons_of_ne_nil fun hnil => ?_
        have hlength := congrArg List.length hnil
        simp only [List.length_append, List.length_nil] at hlength
        omega
      have hlong : period ≤ (neighbours value (front ++ back)).length := by
        rw [length_neighbours, List.length_append]
        omega
      have hcons : neighbours value (first :: front ++ back) =
          [value first second] ++ neighbours value (front ++ back) := by
        rw [List.cons_append, hrest]
        rfl
      rw [hcons, trailing_append hlong]

/-! ### Places in a range -/

/-- A window that ends some bars before the newest, and reaches no further than the back. -/
theorem earlierWindow_append {age : Nat} (h : period + age ≤ back.length) :
    earlierWindow (front ++ back) period age = earlierWindow back period age := by
  have htake : (front ++ back).take ((front ++ back).length - age) =
      front ++ back.take (back.length - age) := by
    have hage : age ≤ back.length := by omega
    rw [List.length_append, Nat.add_sub_assoc hage, List.take_length_add_append]
  have hlong : period ≤ (back.take (back.length - age)).length := by
    rw [List.length_take]
    omega
  rw [earlierWindow, htake, trailing_append hlong, earlierWindow]

/-- The number of places that are averaged, where there are enough bars for all of them. -/
theorem percentKs_of_le {bars : List Bar} {k d : Nat} (hd : 1 ≤ d)
    (h : k + d - 1 ≤ bars.length) :
    percentKs bars k d = (List.range d).map fun age => percentK (earlierWindow bars k age) := by
  have hcount : min (max d 1) (bars.length - k + 1) = d := by omega
  rw [percentKs, hcount]

/-- The last places in a range take one bar more than a range for each place but the newest. -/
theorem percentKs_append {k d : Nat} (hd : 1 ≤ d) (h : k + d - 1 ≤ back.length) :
    percentKs (front ++ back) k d = percentKs back k d := by
  have hlonger : k + d - 1 ≤ (front ++ back).length := by
    rw [List.length_append]
    omega
  rw [percentKs_of_le hd h, percentKs_of_le hd hlonger]
  refine List.map_congr_left fun age hage => ?_
  rw [earlierWindow_append (by have := List.mem_range.mp hage; omega)]

/-! ### Indicators -/

theorem sma_append (hpos : 1 ≤ period) (h : period ≤ back.length) :
    sma (front ++ back) period = sma back period := by
  have hcloses : period ≤ (back.map Bar.close).length := by rwa [List.length_map]
  obtain ⟨mean, hmean⟩ := Option.isSome_iff_exists.mp (sma?_isSome hpos hcloses)
  rw [sma, sma, List.map_append, sma?_append hpos hcloses, hmean]
  rfl

theorem bollinger_append {deviations : Float} (hpos : 1 ≤ period) (h : period ≤ back.length) :
    bollinger (front ++ back) period deviations = bollinger back period deviations := by
  have hcloses : period ≤ (back.map Bar.close).length := by rwa [List.length_map]
  obtain ⟨middle, hmiddle⟩ := Option.isSome_iff_exists.mp (sma?_isSome hpos hcloses)
  obtain ⟨deviation, hdeviation⟩ :=
    Option.isSome_iff_exists.mp (deviation?_isSome hpos hcloses)
  rw [bollinger, bollinger, List.map_append, sma?_append hpos hcloses,
    deviation?_append hpos hcloses, hmiddle, hdeviation]

theorem williamsR_append (hpos : 1 ≤ period) (h : period ≤ back.length) :
    williamsR (front ++ back) period = williamsR back period := by
  rw [williamsR, williamsR, covers_append hpos h, trailing_append h]

theorem rsi_append (hpos : 1 ≤ period) (h : period + 1 ≤ back.length) :
    rsi (front ++ back) period = rsi back period := by
  have henough : ¬ (period = 0 ∨ back.length < period + 1) := by omega
  have henough' : ¬ (period = 0 ∨ (front ++ back).length < period + 1) := by
    rw [List.length_append]
    omega
  rw [rsi, rsi, if_neg henough, if_neg henough', closeDeltas_eq_neighbours,
    closeDeltas_eq_neighbours, trailing_neighbours_append h]

theorem atr_append (h : period + 1 ≤ back.length) :
    atr (front ++ back) period = atr back period := by
  rw [atr, atr, trueRanges_eq_neighbours, trueRanges_eq_neighbours, trailing_neighbours_append h]

theorem stochastic_append {k d : Nat} (hk : 1 ≤ k) (hd : 1 ≤ d) (h : k + d - 1 ≤ back.length) :
    stochastic (front ++ back) k d = stochastic back k d := by
  have henough : ¬ (k = 0 ∨ back.length < k) := by omega
  have henough' : ¬ (k = 0 ∨ (front ++ back).length < k) := by
    rw [List.length_append]
    omega
  rw [stochastic, stochastic, if_neg henough, if_neg henough', percentKs_append hd h]

/-- **Indicators look back no further than their window.** Two series that end in the same bars have
the same mean, the same bands and the same Williams %R of a period that these bars cover; the same
relative strength and mean range of a period that they cover with one bar more; and the same places
in `d` ranges of `k` bars where they are `k + d - 1`. -/
theorem lookbacks_bounded (older older' recent : List Bar) :
    (∀ period, 1 ≤ period → period ≤ recent.length →
      sma (older ++ recent) period = sma (older' ++ recent) period ∧
      (∀ deviations, bollinger (older ++ recent) period deviations =
        bollinger (older' ++ recent) period deviations) ∧
      williamsR (older ++ recent) period = williamsR (older' ++ recent) period) ∧
    (∀ period, 1 ≤ period → period + 1 ≤ recent.length →
      rsi (older ++ recent) period = rsi (older' ++ recent) period ∧
      atr (older ++ recent) period = atr (older' ++ recent) period) ∧
    ∀ k d, 1 ≤ k → 1 ≤ d → k + d - 1 ≤ recent.length →
      stochastic (older ++ recent) k d = stochastic (older' ++ recent) k d := by
  refine ⟨fun period hpos h => ⟨?_, fun deviations => ?_, ?_⟩, fun period hpos h => ⟨?_, ?_⟩,
    fun k d hk hd h => ?_⟩
  · rw [sma_append hpos h, sma_append hpos h]
  · rw [bollinger_append hpos h, bollinger_append hpos h]
  · rw [williamsR_append hpos h, williamsR_append hpos h]
  · rw [rsi_append hpos h, rsi_append hpos h]
  · rw [atr_append h, atr_append h]
  · rw [stochastic_append hk hd h, stochastic_append hk hd h]

/-- A bar that closes at a price. -/
def barAt (close : Float) : Bar :=
  ⟨"AAPL", "NASDAQ", close, close + 1, close - 1, close, 1000, 0, .epoch⟩

/-- Fifteen bars that rise and fall. -/
def fifteenBars : List Bar :=
  (List.range 15).map fun i => barAt (if i % 3 = 0 then 10 else 11)

/-- In front of fifteen bars, a bar without a number is not read by the indicators of fourteen. It
is read where there is one bar less. -/
theorem lookbacks_bounded_wild :
    (rsi ([barAt (0 / 0)] ++ fifteenBars) 14 = rsi ([] ++ fifteenBars) 14 ∧
      atr ([barAt (0 / 0)] ++ fifteenBars) 14 = atr ([] ++ fifteenBars) 14 ∧
      stochastic ([barAt (0 / 0)] ++ fifteenBars) 13 3 = stochastic ([] ++ fifteenBars) 13 3 ∧
      williamsR ([barAt (0 / 0)] ++ fifteenBars) 15 = williamsR ([] ++ fifteenBars) 15) ∧
    rsi ([barAt 20] ++ fifteenBars.tail) 14 ≠ rsi ([barAt 5] ++ fifteenBars.tail) 14 := by
  obtain ⟨hwindow, hneighbours, hplaces⟩ := lookbacks_bounded [barAt (0 / 0)] [] fifteenBars
  obtain ⟨hrsi, hatr⟩ := hneighbours 14 (by decide) (by decide)
  obtain ⟨-, -, hwilliams⟩ := hwindow 15 (by decide) (by decide)
  exact ⟨⟨hrsi, hatr, hplaces 13 3 (by decide) (by decide) (by decide), hwilliams⟩,
    by decide +kernel⟩

end Indicator

end MarketSignals
