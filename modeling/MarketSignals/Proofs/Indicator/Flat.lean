import MarketSignals.Decision.Rules
import MarketSignals.Proofs.Float.Shares
import MarketSignals.Proofs.Indicator.Sizes
import MarketSignals.Signal

/-!
# Flat markets

What the indicators of the default periods say where the price did not move at all.

Whatever looks at differences of prices is neutral at every price, since the difference of a float
and itself is zero: relative strength, the places in a range, the mean range and the balance of
volume. Averages are not. They add up the price and share the total out, or weigh it by two weights
and round both parts, and a price with all 53 bits may come back with another last bit. Then the
bands have a width, and the averages an order. Averages restore a price that has bits to spare: the
exponential averages where its count of units is even, the means where the multiples of the price
that they pass through are floats.

## Main results

* `Lookbacks.compute_flat`: the snapshot of a flat market, with what is true at every price and what
  takes a price with bits to spare.
* `Lookbacks.flat_not_restored`: a price that the averages do not restore.
-/

namespace MarketSignals

open Binary64

/-- A bar of one price. -/
structure Bar.Flat (price : Float) (bar : Bar) : Prop where
  opening : bar.opening = price
  high : bar.high = price
  low : bar.low = price
  close : bar.close = price

theorem Bar.Flat.isFinite {price : Float} {bar : Bar} (h : bar.Flat price)
    (hfinite : price.isFinite = true) : bar.isFinite = true := by
  rw [Bar.isFinite, h.opening, h.high, h.low, h.close, hfinite]
  rfl

/-- Every multiple of a float, up to a number of times, is a float. -/
def MultiplesExact (times : ℕ) (price : Float) : Prop :=
  ∀ n ≤ times, Exact (n * toReal price)

theorem MultiplesExact.mono {times fewer : ℕ} {price : Float} (h : MultiplesExact times price)
    (hle : fewer ≤ times) : MultiplesExact fewer price :=
  fun n hn => h n (hn.trans hle)

/-- A float with a few exact multiples has an even count of units. -/
theorem MultiplesExact.evenCount {times : ℕ} {price : Float} (h : MultiplesExact times price)
    (htimes : 3 ≤ times) (hpos : 0 < price) (hfinite : price.isFinite = true) :
    EvenCount (toReal price) := by
  have hprice := denotes_toReal hfinite
  exact evenCount_of_triple hprice.representable (by exact_mod_cast (h 3 htimes).representable)
    ((denotes_zero.lt_iff hprice).mp hpos)

/-- The entries of a window are entries of the list. -/
theorem IsWindow.eq_replicate {α : Type} {count age : ℕ} {list window : List α} {a : α}
    (h : IsWindow count age list window) (hall : ∀ x ∈ list, x = a) :
    window = List.replicate count a := by
  obtain ⟨hlength, older, newer, rfl, -⟩ := h
  exact List.eq_replicate_iff.mpr ⟨hlength, fun x hx => hall x (by simp [hx])⟩

/-- No finite float is less than itself. -/
theorem not_lt_self_of_finite {x : Float} (h : x.isFinite = true) : ¬ x < x := fun hlt =>
  lt_irrefl _ (((denotes_toReal h).lt_iff (denotes_toReal h)).mp hlt)

namespace Series

variable {price : Float} {period : ℕ} {values : List Float}

/-! ### Averages of one number -/

/-- The mean of one number that has exact multiples. -/
theorem mean_replicate {n : ℕ} (hn : 0 < n) (hcount : n ≤ 2 ^ 53) (hpos : 0 < price)
    (hfinite : price.isFinite = true) (hexact : MultiplesExact n price) :
    mean (List.replicate n price) = price := by
  have hprice := denotes_toReal hfinite
  have hvalues : ∀ v ∈ List.replicate n price,
      ∃ r, Denotes v r ∧ toReal price ≤ r ∧ r ≤ toReal price := by
    intro v hv
    rw [List.eq_of_mem_replicate hv]
    exact ⟨_, hprice, le_rfl, le_rfl⟩
  rw [← List.length_replicate (n := n) (a := price)] at hexact hn hcount
  obtain ⟨r, hmean, hlow, hhigh⟩ :=
    exists_mean_between hvalues (fun m hm => ⟨hexact m hm, hexact m hm⟩) hn hcount
  rw [le_antisymm hhigh hlow] at hmean
  exact hmean.eq hprice ((denotes_zero.lt_iff hprice).mp hpos).ne'

/-- The weights of the two default periods are odd counts of `2 ^ (-53)`. -/
theorem emaWeight_default :
    emaWeight 12 = Float.ofNat 1385722962267845 / Float.ofNat (2 ^ 53) ∧
      emaWeight 26 = Float.ofNat 667199944795629 / Float.ofNat (2 ^ 53) := by
  decide +kernel

/-- A step of either default average between equal numbers, whose count of units is even. -/
theorem emaStep_default (hpos : 0 < price) (hfinite : price.isFinite = true)
    (heven : EvenCount (toReal price)) :
    emaStep 12 price price = price ∧ emaStep 26 price price = price := by
  have hprice := denotes_toReal hfinite
  have hpos' := (denotes_zero.lt_iff hprice).mp hpos
  obtain ⟨hfast, hslow⟩ := emaWeight_default
  have hfast' := denotes_weighted hprice hpos' hfast (by decide) (by norm_num) heven
  have hslow' := denotes_weighted hprice hpos' hslow (by decide) (by norm_num) heven
  exact ⟨hfast'.eq hprice hpos'.ne', hslow'.eq hprice hpos'.ne'⟩

/-- A number that a step restores is the whole average of its own series. -/
theorem eq_of_mem_emaSeries (hstep : emaStep period price price = price)
    (hvalues : ∀ v ∈ values, v = price) : ∀ x ∈ emaSeries values period, x = price := by
  cases values with
  | nil => exact List.forall_mem_nil _
  | cons first rest =>
      obtain ⟨hfirst, hrest⟩ := List.forall_mem_cons.mp hvalues
      refine List.forall_mem_cons.mpr ⟨hfirst, ?_⟩
      exact forall_emaFrom (fun v previous hv hprevious => by rw [hv, hprevious, hstep]) hfirst hrest

end Series

namespace Indicator

open Series

variable {price highest lowest close : Float} {bars window : List Bar}

/-- The range of flat bars is their price. -/
theorem Ranged.eq_of_flat (h : Ranged window highest lowest close)
    (hfinite : price.isFinite = true) (hflat : ∀ bar ∈ window, bar.Flat price) :
    highest = price ∧ lowest = price := by
  have hhighs : ∀ v ∈ window.map Bar.high, v = price :=
    List.forall_mem_map.mpr fun bar hbar => (hflat bar hbar).high
  have hlows : ∀ v ∈ window.map Bar.low, v = price :=
    List.forall_mem_map.mpr fun bar hbar => (hflat bar hbar).low
  exact ⟨hhighs _ (max?_spec (fun v hv => hhighs v hv ▸ hfinite) h.highest).1,
    hlows _ (min?_spec (fun v hv => hlows v hv ▸ hfinite) h.lowest).1⟩

/-- The closes of flat bars do not differ, -/
theorem eq_zero_of_mem_closeDeltas (hfinite : price.isFinite = true)
    (hflat : ∀ bar ∈ bars, bar.Flat price) : ∀ d ∈ closeDeltas bars, d = 0 := by
  rw [closeDeltas_eq_neighbours]
  refine forall_mem_neighbours _ (· = 0) fun former hformer bar hbar => ?_
  rw [(hflat former hformer).close, (hflat bar hbar).close, sub_self_of_finite hfinite]

/-- and the bars have no range. -/
theorem eq_zero_of_mem_trueRanges (hfinite : price.isFinite = true)
    (hflat : ∀ bar ∈ bars, bar.Flat price) : ∀ range ∈ trueRanges bars, range = 0 := by
  rw [trueRanges_eq_neighbours]
  refine forall_mem_neighbours _ (· = 0) fun former hformer bar hbar => ?_
  obtain ⟨-, hhigh, hlow, -⟩ := hflat bar hbar
  rw [hhigh, hlow, (hflat former hformer).close, trueRange, sub_self_of_finite hfinite]
  decide +kernel

/-- Volume between equal closes is not counted. -/
theorem eq_of_mem_obvFrom {former : Bar} {balance : Float} (hfinite : price.isFinite = true)
    (hformer : former.Flat price) (hflat : ∀ bar ∈ bars, bar.Flat price) :
    ∀ x ∈ obvFrom former balance bars, x = balance := by
  induction bars generalizing former with
  | nil => exact List.forall_mem_nil _
  | cons bar rest ih =>
      obtain ⟨hbar, hrest⟩ := List.forall_mem_cons.mp hflat
      have hlevel := not_lt_self_of_finite hfinite
      rw [obvFrom, hformer.close, hbar.close, if_neg hlevel, if_neg hlevel]
      exact List.forall_mem_cons.mpr ⟨rfl, ih hbar hrest⟩

theorem obv_of_flat (hfinite : price.isFinite = true) (hflat : ∀ bar ∈ bars, bar.Flat price) :
    obv bars = 0 := by
  have hzero : ∀ x ∈ obvSeries bars, x = 0 := by
    cases bars with
    | nil => exact List.forall_mem_nil _
    | cons first rest =>
        obtain ⟨hfirst, hrest⟩ := List.forall_mem_cons.mp hflat
        exact List.forall_mem_cons.mpr ⟨rfl, eq_of_mem_obvFrom hfinite hfirst hrest⟩
  rw [obv]
  cases hlast : (obvSeries bars).getLast? with
  | none => rfl
  | some x => exact hzero x (List.mem_of_getLast? hlast)

end Indicator

/-! ### Readings -/

/-- Readings of a market that did not move, but for the averages of its price. -/
structure Readings.Still (r : Readings) : Prop where
  rsi : r.rsi = 50
  stochastic : r.stochastic = ⟨50, 50⟩
  williamsR : r.williamsR = -50
  atr : r.atr = 0
  obv : r.obv = 0

namespace Lookbacks

open Indicator Series

variable {price : Float} {bars : List Bar} {r : Readings}

theorem closes_eq_of_flat (hflat : ∀ bar ∈ bars, bar.Flat price) :
    ∀ v ∈ bars.map Bar.close, v = price :=
  List.forall_mem_map.mpr fun bar hbar => (hflat bar hbar).close

/-- What looks at differences of prices is neutral in a flat market, whatever the price is. -/
theorem still_of_flat (hfinite : price.isFinite = true) (hflat : ∀ bar ∈ bars, bar.Flat price)
    (hmany : 50 ≤ bars.length) : (({} : Lookbacks).readings bars).Still := by
  have hfull := fullPeriods_readings (l := {}) (by decide) hmany
  have hlevel : (price - price == 0) = true := by
    rw [sub_self_of_finite hfinite]
    decide
  have hplace {count age : ℕ} {window : List Bar} {highest lowest close : Float}
      (hwindow : IsWindow count age bars window) (hranged : Ranged window highest lowest close) :
      (highest - lowest == 0) = true := by
    obtain ⟨-, older, newer, rfl, -⟩ := hwindow
    obtain ⟨rfl, rfl⟩ := hranged.eq_of_flat hfinite fun bar hbar => hflat bar (by simp [hbar])
    exact hlevel
  refine ⟨?_, ?_, ?_, ?_, obv_of_flat hfinite hflat⟩
  · obtain ⟨deltas, hwindow, hrsi⟩ := hfull.rsi
    rw [hrsi, hwindow.eq_replicate (eq_zero_of_mem_closeDeltas hfinite hflat)]
    decide +kernel
  · obtain ⟨places, hlength, hhead, hmean, hplaces⟩ := hfull.stochastic
    have hneutral : places = List.replicate 3 neutralStochastic := by
      refine List.eq_replicate_iff.mpr ⟨hlength, fun x hx => ?_⟩
      obtain ⟨age, hage, rfl⟩ := List.getElem_of_mem hx
      obtain ⟨window, highest, lowest, close, hwindow, hranged, hvalue⟩ := hplaces age hage
      rw [hvalue, if_pos (hplace hwindow hranged)]
    rw [hneutral] at hhead hmean
    have hd : mean (List.replicate 3 neutralStochastic) = 50 := by decide +kernel
    generalize (({} : Lookbacks).readings bars).stochastic = s at *
    obtain ⟨k, d⟩ := s
    rw [hd] at hmean
    obtain rfl : d = 50 := hmean
    obtain rfl : k = 50 := (Option.some.inj hhead).symm
    rfl
  · obtain ⟨window, highest, lowest, close, hwindow, hranged, hvalue⟩ := hfull.williamsR
    rw [hvalue, if_pos (hplace hwindow hranged)]
    rfl
  · obtain ⟨ranges, hwindow, hatr⟩ := hfull.atr
    rw [hatr, hwindow.eq_replicate (eq_zero_of_mem_trueRanges hfinite hflat)]
    decide +kernel

/-- The exponential averages restore a price with an even count of units, and do not differ. -/
theorem ema_of_flat (hpos : 0 < price) (hfinite : price.isFinite = true)
    (hflat : ∀ bar ∈ bars, bar.Flat price) (hmany : 50 ≤ bars.length)
    (heven : EvenCount (toReal price)) :
    (({} : Lookbacks).readings bars).emaFast = price ∧
      (({} : Lookbacks).readings bars).emaSlow = price ∧
      (({} : Lookbacks).readings bars).macd = ⟨0, 0, 0⟩ := by
  have hfull := fullPeriods_readings (l := {}) (by decide) hmany
  have hcloses := closes_eq_of_flat hflat
  obtain ⟨hfast, hslow⟩ := emaStep_default hpos hfinite heven
  have hfastSeries := eq_of_mem_emaSeries hfast hcloses
  have hslowSeries := eq_of_mem_emaSeries hslow hcloses
  refine ⟨hfastSeries _ (List.mem_of_getLast? hfull.emaFast),
    hslowSeries _ (List.mem_of_getLast? hfull.emaSlow), ?_⟩
  obtain ⟨series, line, signal, rfl, -, hline, hsignal, hmacd⟩ := hfull.macd
  have hzero : ∀ x ∈ macdSeries (bars.map Bar.close) 12 26, x = 0 := by
    intro x hx
    rw [macdSeries, ← List.map_uncurry_zip_eq_zipWith] at hx
    obtain ⟨⟨a, b⟩, hab, rfl⟩ := List.mem_map.mp hx
    obtain ⟨ha, hb⟩ := List.of_mem_zip hab
    rw [Function.uncurry_apply_pair, hfastSeries a ha, hslowSeries b hb, sub_self_of_finite hfinite]
  have hstep : emaStep 9 0 0 = 0 := by decide +kernel
  obtain rfl := hzero line (List.mem_of_getLast? hline)
  obtain rfl := eq_of_mem_emaSeries hstep hzero signal (List.mem_of_getLast? hsignal)
  rw [hmacd]
  decide +kernel

/-- The short mean restores a price with exact multiples, and the bands have no width. -/
theorem bands_of_flat (hpos : 0 < price) (hfinite : price.isFinite = true)
    (hflat : ∀ bar ∈ bars, bar.Flat price) (hmany : 50 ≤ bars.length)
    (hexact : MultiplesExact 20 price) :
    (({} : Lookbacks).readings bars).smaShort = price ∧
      (({} : Lookbacks).readings bars).bollinger = ⟨price, price, price⟩ := by
  have hfull := fullPeriods_readings (l := {}) (by decide) hmany
  have hcloses := closes_eq_of_flat hflat
  have hmean := mean_replicate (by norm_num) (by norm_num) hpos hfinite hexact
  obtain ⟨closes, hwindow, hsma⟩ := hfull.smaShort
  rw [hwindow.eq_replicate hcloses, hmean] at hsma
  refine ⟨hsma, ?_⟩
  obtain ⟨closes, deviation, hwindow, hdeviation, hbands⟩ := hfull.bollinger
  rw [hwindow.eq_replicate hcloses, hmean] at hdeviation hbands
  rw [List.map_replicate, sub_self_of_finite hfinite] at hdeviation
  have hspread : ({} : Lookbacks).bollingerDeviations * deviation = 0 := by
    rw [hdeviation]
    decide +kernel
  have hprice := denotes_toReal hfinite
  have hne := ((denotes_zero.lt_iff hprice).mp hpos).ne'
  have hplus := hprice.add denotes_zero (by rw [add_zero]; exact hprice.inRange)
  have hminus := hprice.sub denotes_zero (by rw [sub_zero]; exact hprice.inRange)
  rw [add_zero, hprice.rnd_eq] at hplus
  rw [sub_zero, hprice.rnd_eq] at hminus
  rw [hbands, hspread, hplus.eq hprice hne, hminus.eq hprice hne]

/-- So does the long mean. -/
theorem smaLong_of_flat (hpos : 0 < price) (hfinite : price.isFinite = true)
    (hflat : ∀ bar ∈ bars, bar.Flat price) (hmany : 50 ≤ bars.length)
    (hexact : MultiplesExact 50 price) : (({} : Lookbacks).readings bars).smaLong = price := by
  have hfull := fullPeriods_readings (l := {}) (by decide) hmany
  obtain ⟨closes, hwindow, hsma⟩ := hfull.smaLong
  rw [hsma, hwindow.eq_replicate (closes_eq_of_flat hflat)]
  exact mean_replicate (by norm_num) (by norm_num) hpos hfinite hexact

/-! ### Decisions -/

/-- Bands of no width and no mean range add nothing to the confidence of a remote decision. -/
theorem rawStrength_of_level (hfinite : price.isFinite = true)
    (hbands : r.bollinger = ⟨price, price, price⟩) (hatr : r.atr = 0) {d : Decision}
    (hremote : d.source = .remote) : d.rawStrength r = d.confidence := by
  have hwidth : ¬ 0 < r.bollinger.width := by
    rw [hbands, Bands.width, sub_self_of_finite hfinite]
    decide
  have hvolatility : ¬ highVolatility < r.atr := by
    rw [hatr]
    decide +kernel
  rw [Decision.rawStrength, hremote]
  simp only [if_neg hwidth, if_neg hvolatility]

/-- Averages that do not differ are two votes for selling. -/
theorem decide_of_level (hfinite : price.isFinite = true) (hrsi : r.rsi = 50)
    (hmacd : r.macd = ⟨0, 0, 0⟩) (hshort : r.smaShort = price) (hlong : r.smaLong = price)
    {request : DecisionRequest} (hrequest : request.indicators.readings = r) (now : Timestamp) :
    (Rules.decide request now).action = .sell := by
  have hvotes : Rules.votes r =
      [⟨.bearish, "MACD negative"⟩, ⟨.bearish, "SMA20 <= SMA50"⟩] := by
    rw [Rules.votes, hrsi, hmacd, hshort, hlong, if_neg (by decide +kernel),
      if_neg (by decide +kernel), if_neg (by decide), if_neg (not_lt_self_of_finite hfinite)]
    rfl
  rw [Rules.decide, hrequest, hvotes]
  rfl

/-- **The snapshot of a flat market.** At every price, relative strength and the places are in their
middle, the mean range and the balance of volume are zero. A price with an even count of units is
restored by the exponential averages, which then do not differ. A price with exact multiples is
restored by the means; then the bands have no width, a remote decision gains nothing from them, and
the rules sell. -/
theorem compute_flat (symbol : String) (hpos : 0 < price) (hfinite : price.isFinite = true)
    (hflat : ∀ bar ∈ bars, bar.Flat price) (hmany : 50 ≤ bars.length) :
    ∃ snapshot, ({} : Lookbacks).compute symbol bars = .ok snapshot ∧ snapshot.readings.Still ∧
      (EvenCount (toReal price) → snapshot.readings.emaFast = price ∧
        snapshot.readings.emaSlow = price ∧ snapshot.readings.macd = ⟨0, 0, 0⟩) ∧
      (MultiplesExact 20 price → snapshot.readings.smaShort = price ∧
        snapshot.readings.bollinger = ⟨price, price, price⟩ ∧
        ∀ d : Decision, d.source = .remote → d.rawStrength snapshot.readings = d.confidence) ∧
      (MultiplesExact 50 price → snapshot.readings.smaLong = price ∧
        ∀ (request : DecisionRequest) (now : Timestamp), request.indicators = snapshot →
          (Rules.decide request now).action = .sell) := by
  have henough : ({} : Lookbacks).requiredBars ≤ bars.length := hmany
  obtain ⟨newest, -, hcompute⟩ := compute_of_finite symbol henough
    fun bar hbar => (hflat bar hbar).isFinite hfinite
  have hsorted : ∀ bar ∈ sortByTime bars, bar.Flat price :=
    fun bar hbar => hflat bar ((sortByTime_perm bars).mem_iff.mp hbar)
  have hmany' : 50 ≤ (sortByTime bars).length := by rwa [length_sortByTime]
  have hstill := still_of_flat hfinite hsorted hmany'
  have hema := ema_of_flat hpos hfinite hsorted hmany'
  have hbands := bands_of_flat hpos hfinite hsorted hmany'
  refine ⟨_, hcompute, hstill, hema, fun hexact => ?_, fun hexact => ?_⟩
  · obtain ⟨hshort, hlevel⟩ := hbands hexact
    exact ⟨hshort, hlevel, fun d hremote => rawStrength_of_level hfinite hlevel hstill.atr hremote⟩
  · have hlong := smaLong_of_flat hpos hfinite hsorted hmany' hexact
    refine ⟨hlong, fun request now hrequest => ?_⟩
    obtain ⟨-, -, hmacd⟩ := hema (hexact.evenCount (by norm_num) hpos hfinite)
    obtain ⟨hshort, -⟩ := hbands (hexact.mono (by norm_num))
    exact decide_of_level hfinite hstill.rsi hmacd hshort hlong (by rw [hrequest]) now

/-- Fifty days at one price. -/
def fiftyFlatDays (price : Float) : List Bar :=
  (List.range 50).map fun day =>
    ⟨"AAPL", "NASDAQ", price, price, price, price, 1000, 0,
      (Timestamp.of? (day * secondsPerDay) 0).getD .epoch⟩

theorem flat_of_mem_fiftyFlatDays (price : Float) : ∀ bar ∈ fiftyFlatDays price, bar.Flat price :=
  List.forall_mem_map.mpr fun _ _ => ⟨rfl, rfl, rfl, rfl⟩

/-- A hundred is restored by all averages. -/
theorem compute_flat_hundred : ∃ snapshot,
    ({} : Lookbacks).compute "AAPL" (fiftyFlatDays 100) = .ok snapshot ∧
      snapshot.readings.Still ∧ snapshot.readings.macd = ⟨0, 0, 0⟩ ∧
      snapshot.readings.bollinger = ⟨100, 100, 100⟩ ∧ snapshot.readings.smaLong = 100 := by
  have hundred : toReal 100 = 100 := (denotes_natCast (n := 100) (by norm_num)).toReal_eq
  have hexact : MultiplesExact 50 100 := fun n hn => by
    have hmultiple : n * 100 ≤ 2 ^ 53 := by omega
    rw [hundred]
    exact_mod_cast (denotes_natCast hmultiple).exact
  obtain ⟨snapshot, hcompute, hstill, hema, hbands, hlong⟩ := compute_flat "AAPL"
    (by decide) (by decide) (flat_of_mem_fiftyFlatDays 100) (by decide)
  obtain ⟨-, -, hmacd⟩ := hema (hexact.evenCount (by norm_num) (by decide) (by decide))
  exact ⟨snapshot, hcompute, hstill, hmacd, (hbands (hexact.mono (by norm_num))).2.1,
    (hlong hexact).1⟩

/-- The bit pattern of 10.01 is odd, and its multiples are no floats. No average restores it: one
exponential average and both means are off, the bands have a width, and the rules hold. -/
theorem flat_not_restored : (0 : Float) < 10.01 ∧ (10.01 : Float).isFinite = true ∧
    (∀ bar ∈ fiftyFlatDays 10.01, bar.Flat 10.01) ∧ ∃ snapshot,
      ({} : Lookbacks).compute "AAPL" (fiftyFlatDays 10.01) = .ok snapshot ∧
        snapshot.readings.emaFast ≠ 10.01 ∧ snapshot.readings.macd.line ≠ 0 ∧
        snapshot.readings.smaShort ≠ 10.01 ∧ snapshot.readings.smaLong ≠ 10.01 ∧
        0 < snapshot.readings.bollinger.width ∧
        (Rules.outcome (Rules.votes snapshot.readings)).1 = .hold := by
  have hlong : ({} : Lookbacks).requiredBars ≤ (fiftyFlatDays 10.01).length := by decide
  have hfinite : ∀ bar ∈ fiftyFlatDays 10.01, bar.isFinite = true := by decide +kernel
  obtain ⟨newest, -, hcompute⟩ := compute_of_sorted "AAPL" hlong hfinite (by decide +kernel)
  have hoff : let r := ({} : Lookbacks).readings (fiftyFlatDays 10.01)
      r.emaFast ≠ 10.01 ∧ r.macd.line ≠ 0 ∧ r.smaShort ≠ 10.01 ∧ r.smaLong ≠ 10.01 ∧
        0 < r.bollinger.width ∧ (Rules.outcome (Rules.votes r)).1 = .hold := by
    decide +kernel
  exact ⟨by decide, by decide, flat_of_mem_fiftyFlatDays 10.01, _, hcompute, hoff⟩

end Lookbacks

end MarketSignals
