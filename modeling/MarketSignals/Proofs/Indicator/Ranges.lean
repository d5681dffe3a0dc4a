import MarketSignals.Proofs.Indicator.Sizes

/-!
# Documented ranges

The places of the close are documented to be from zero to a hundred per cent, and Williams %R from
minus a hundred to zero. A series is only asked to have finite prices, and the close of a bar may lie
outside of every low and high. The places then leave their ranges. Where the last close of a window
lies between the lowest and the highest price of the window, they do not; in particular where each
bar closes between its own low and high. The bands are in order for every series.

## Main results

* `Lookbacks.default_ranges`: the ranges, for each window whose last close lies in its range.
* `Lookbacks.close_outside_range`: a close above every high has places beyond both ranges.
-/

namespace MarketSignals

open Binary64

namespace Indicator

/-- The last close of a window lies between the lowest and the highest price in it. -/
def ClosesWithin (window : List Bar) : Prop :=
  ∃ highest lowest close, Ranged window highest lowest close ∧ lowest ≤ close ∧ close ≤ highest

variable {k : ℕ} {bars window : List Bar}

/-- A window of bars that close in their own ranges closes within its range. -/
theorem closesWithin_of_ordered (hsome : window ≠ []) (hsized : ∀ bar ∈ window, bar.Sized k)
    (hordered : ∀ bar ∈ window, bar.Ordered) : ClosesWithin window := by
  obtain ⟨highest, lowest, close, hranged⟩ := exists_ranged hsome
  exact ⟨highest, lowest, close, hranged, hranged.close_between hsized hordered⟩

theorem ClosesWithin.percentK (h : ClosesWithin window) (hsized : ∀ bar ∈ window, bar.Sized k)
    (hk : k + 1 < 1024) : ∃ r, Denotes (percentK window) r ∧ 0 ≤ r ∧ r ≤ 100 := by
  obtain ⟨highest, lowest, close, hranged, hlow, hhigh⟩ := h
  exact exists_percentK hranged hsized hk hlow hhigh

theorem ClosesWithin.percentR (h : ClosesWithin window) (hsized : ∀ bar ∈ window, bar.Sized k)
    (hk : k + 1 < 1024) : ∃ r, Denotes (percentR window) r ∧ -100 ≤ r ∧ r ≤ 0 := by
  obtain ⟨highest, lowest, close, hranged, hlow, hhigh⟩ := h
  exact exists_percentR hranged hsized hk hlow hhigh

/-- The mean of three places is from zero to a hundred where each of them is. -/
theorem exists_mean_places {place : ℕ → Float}
    (h : ∀ age < 3, ∃ r, Denotes (place age) r ∧ 0 ≤ r ∧ r ≤ 100) :
    ∃ r, Denotes (Series.mean ((List.range 3).map place)) r ∧ 0 ≤ r ∧ r ≤ 100 := by
  have hlength : ((List.range 3).map place).length = 3 := by simp
  refine exists_mean_between
    (List.forall_mem_map.mpr fun age hage => h age (List.mem_range.mp hage)) ?_ (by omega) (by omega)
  intro n hn
  have hcount : Denotes (Float.ofNat (n * 100)) ((n * 100 : ℕ) : ℝ) := denotes_natCast (by omega)
  push_cast at hcount
  exact ⟨by rw [mul_zero]; exact denotes_zero.exact, hcount.exact⟩

/-- A real number between two counts is a float between the floats of the counts. -/
theorem between_of_denotes {x low high : Float} {r s t : ℝ} (hx : Denotes x r)
    (hlow : Denotes low s) (hhigh : Denotes high t) (hs : s ≤ r) (ht : r ≤ t) :
    low ≤ x ∧ x ≤ high :=
  ⟨(hlow.le_iff hx).mpr hs, (hx.le_iff hhigh).mpr ht⟩

end Indicator

/-! ### The default periods -/

namespace Lookbacks

open Indicator Series

/-- The prices of a bar that indicators read are positive and at most `1e100`. -/
def Moderate (bar : Bar) : Prop :=
  ∀ price ∈ [bar.high, bar.low, bar.close], 0 < price ∧ price ≤ 1e100

instance (bar : Bar) : Decidable (Moderate bar) :=
  inferInstanceAs (Decidable (∀ price ∈ [bar.high, bar.low, bar.close],
    0 < price ∧ price ≤ 1e100))

theorem atMost_moderate {price : Float} (hfinite : price.isFinite = true) (hpos : 0 < price)
    (hle : price ≤ 1e100) : AtMost 333 price := by
  have hbound : Denotes (1e100 : Float) (rnd (10 ^ 100)) := denotes_powerOfTen (by norm_num)
  have dprice := denotes_toReal hfinite
  have hlow := (denotes_zero.lt_iff dprice).mp hpos
  have hhigh := (dprice.le_iff hbound).mp hle
  have hnat : 10 ^ 100 ≤ 2 ^ 333 := by decide +kernel
  have hpower : rnd (10 ^ 100) ≤ 2 ^ 333 :=
    rnd_le (representable_two_pow 333) (by exact_mod_cast hnat)
  exact ⟨_, dprice, by rw [abs_of_pos hlow]; exact hhigh.trans hpower⟩

theorem sized_of_moderate {bar : Bar} (hfinite : bar.isFinite = true) (h : Moderate bar) :
    bar.Sized 333 := by
  obtain ⟨⟨⟨-, hhigh⟩, hlow⟩, hclose⟩ := by simpa [Bar.isFinite] using hfinite
  obtain ⟨mhigh, mlow, mclose, -⟩ := by simpa only [Moderate, List.forall_mem_cons] using h
  exact ⟨atMost_moderate hhigh mhigh.1 mhigh.2, atMost_moderate hlow mlow.1 mlow.2,
    atMost_moderate hclose mclose.1 mclose.2⟩

/-- **The documented ranges.** For a series with positive prices of at most `1e100` that the default
periods have a snapshot of, the bands are in order. The place of the close and Williams %R are in
their ranges where the last close of the newest fourteen bars lies within their range; the mean place
is where this holds of the newest three windows. Both are the case where every bar closes between its
own low and high. -/
theorem default_ranges {symbol : String} {bars : List Bar} {snapshot : Snapshot}
    (hmoderate : ∀ bar ∈ bars, Moderate bar)
    (h : ({} : Lookbacks).compute symbol bars = .ok snapshot) :
    (snapshot.readings.bollinger.lower ≤ snapshot.readings.bollinger.middle ∧
      snapshot.readings.bollinger.middle ≤ snapshot.readings.bollinger.upper) ∧
    (ClosesWithin (earlierWindow (sortByTime bars) 14 0) →
      (0 ≤ snapshot.readings.stochastic.k ∧ snapshot.readings.stochastic.k ≤ 100) ∧
      (-100 ≤ snapshot.readings.williamsR ∧ snapshot.readings.williamsR ≤ 0)) ∧
    ((∀ age < 3, ClosesWithin (earlierWindow (sortByTime bars) 14 age)) →
      0 ≤ snapshot.readings.stochastic.d ∧ snapshot.readings.stochastic.d ≤ 100) ∧
    ((∀ bar ∈ bars, bar.Ordered) →
      ∀ age < 3, ClosesWithin (earlierWindow (sortByTime bars) 14 age)) := by
  obtain ⟨henough, hfinite, newest, -, rfl⟩ := compute_eq_ok h
  have hfifty : ({} : Lookbacks).requiredBars = 50 := by decide
  rw [hfifty, ← length_sortByTime] at henough
  have hsized : ∀ bar ∈ sortByTime bars, bar.Sized 333 := fun bar hbar => by
    have hmem := (sortByTime_perm bars).mem_iff.mp hbar
    exact sized_of_moderate (hfinite bar hmem) (hmoderate bar hmem)
  have hordered : (∀ bar ∈ bars, bar.Ordered) → ∀ bar ∈ sortByTime bars, bar.Ordered :=
    fun hall bar hbar => hall bar ((sortByTime_perm bars).mem_iff.mp hbar)
  generalize sortByTime bars = sorted at henough hsized hordered ⊢
  have hmem {age : ℕ} : ∀ bar ∈ earlierWindow sorted 14 age, bar ∈ sorted :=
    fun bar hbar => List.mem_of_mem_take (List.mem_of_mem_drop hbar)
  have hwindow {age : ℕ} : ∀ bar ∈ earlierWindow sorted 14 age, bar.Sized 333 :=
    fun bar hbar => hsized bar (hmem bar hbar)
  have hplaces : stochastic sorted 14 3 = _ := stochastic_of_le (by norm_num) (by norm_num) (by omega)
  have hbelow : williamsR sorted 14 = _ := williamsR_of_le (by norm_num) (by omega)
  rw [← earlierWindow_zero] at hbelow
  refine ⟨?_, fun hnewest => ⟨?_, ?_⟩, fun hall => ?_, fun hall age hage => ?_⟩
  · exact bollinger_ordered 20 hsized (.ofNat (n := 2) (k := 1) (by norm_num) (by norm_num))
      (by decide +kernel) (by norm_num) (by norm_num) (by omega)
  · obtain ⟨r, hr, hlow, hhigh⟩ := hnewest.percentK hwindow (by norm_num)
    show 0 ≤ (stochastic sorted 14 3).k ∧ (stochastic sorted 14 3).k ≤ 100
    rw [hplaces]
    exact between_of_denotes hr denotes_zero denotes_hundred hlow hhigh
  · obtain ⟨r, hr, hlow, hhigh⟩ := hnewest.percentR hwindow (by norm_num)
    show -100 ≤ williamsR sorted 14 ∧ williamsR sorted 14 ≤ 0
    rw [hbelow]
    exact between_of_denotes hr denotes_hundred.neg denotes_zero hlow hhigh
  · obtain ⟨r, hr, hlow, hhigh⟩ := exists_mean_places fun age hage =>
      (hall age hage).percentK hwindow (by norm_num)
    show 0 ≤ (stochastic sorted 14 3).d ∧ (stochastic sorted 14 3).d ≤ 100
    rw [hplaces]
    exact between_of_denotes hr denotes_zero denotes_hundred hlow hhigh
  · refine closesWithin_of_ordered ?_ hwindow fun bar hbar => hordered hall bar (hmem bar hbar)
    rw [← List.length_pos_iff, (isWindow_earlierWindow (by omega)).1]
    norm_num

/-- Fifty days that close in their own ranges have all places in the documented ranges. -/
theorem default_ranges_fiftyDays : ∃ snapshot,
    ({} : Lookbacks).compute "AAPL" fiftyDays = .ok snapshot ∧
      (0 ≤ snapshot.readings.stochastic.k ∧ snapshot.readings.stochastic.k ≤ 100) ∧
      (0 ≤ snapshot.readings.stochastic.d ∧ snapshot.readings.stochastic.d ≤ 100) ∧
      (-100 ≤ snapshot.readings.williamsR ∧ snapshot.readings.williamsR ≤ 0) ∧
      snapshot.readings.bollinger.lower ≤ snapshot.readings.bollinger.middle ∧
      snapshot.readings.bollinger.middle ≤ snapshot.readings.bollinger.upper := by
  obtain ⟨snapshot, hcompute⟩ := exists_compute_fiftyDays
  obtain ⟨hbands, hnewest, hmean, hordered⟩ := default_ranges (by decide +kernel) hcompute
  have hwithin := hordered (by decide +kernel)
  obtain ⟨hk, hwilliams⟩ := hnewest (hwithin 0 (by norm_num))
  exact ⟨_, hcompute, hk, hmean hwithin, hwilliams, hbands⟩

/-- Fifty days whose last close is above every high. -/
def closeAbove : List Bar :=
  (List.range 50).map fun day =>
    ⟨"AAPL", "NASDAQ", 10, 12, 9, if day = 49 then 13 else 10, 1000, 0,
      (Timestamp.of? (day * secondsPerDay) 0).getD .epoch⟩

/-- A close above every high has a place beyond a hundred, and a positive Williams %R. -/
theorem close_outside_range : (∀ bar ∈ closeAbove, Moderate bar) ∧ ∃ snapshot,
    ({} : Lookbacks).compute "AAPL" closeAbove = .ok snapshot ∧
      ¬ snapshot.readings.stochastic.k ≤ 100 ∧ ¬ snapshot.readings.williamsR ≤ 0 := by
  have hlong : ({} : Lookbacks).requiredBars ≤ closeAbove.length := by decide +kernel
  have hfinite : ∀ bar ∈ closeAbove, bar.isFinite = true := by decide +kernel
  obtain ⟨newest, -, hcompute⟩ := compute_of_sorted "AAPL" hlong hfinite (by decide +kernel)
  have houtside : ¬ (({} : Lookbacks).readings closeAbove).stochastic.k ≤ 100 ∧
      ¬ (({} : Lookbacks).readings closeAbove).williamsR ≤ 0 := by decide +kernel
  exact ⟨by decide +kernel, _, hcompute, houtside⟩

end Lookbacks

end MarketSignals
