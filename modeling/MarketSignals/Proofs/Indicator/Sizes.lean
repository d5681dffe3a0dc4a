import MarketSignals.Proofs.Indicator.Places

/-!
# Sizes of indicators

How large each indicator can become, given how large the prices are. Most bounds follow from those of
single operations. Three take more.

An exponential average with a proper period stays within the bound of its numbers. The two weights
are rounded, so they may add up to a little more than one, but by no more than half a unit, and that
is rounded off again. With a period of zero the weights are two and minus one; the averages grow, but
like a sum they stop growing.

Relative strength may divide by a loss so small that the quotient overflows. An infinite quotient
still gives a number, and clamping brings every number between zero and a hundred.

The place of a close in a range is bounded where the close lies in the range.

## Main results

* `atMost_emaSeries`: bounds of an exponential average.
* `exists_variance`: the variance is a number, and not negative.
* `bollinger_sized`, `macd_sized`, `rsi_sized`: bounds of single indicators.
* `bollinger_ordered`: the bands are in order.
* `Lookbacks.readings_sized`: bounds of all readings.
-/

namespace MarketSignals

open Binary64

namespace Series

variable {k period : ℕ} {values : List Float}

/-! ### Exponential averages -/

/-- The weight of a new number is at most one. -/
theorem exists_emaWeight (hpos : 1 ≤ period) (hword : period < 2 ^ 64) :
    ∃ w, Denotes (emaWeight period) w ∧ 0 ≤ w ∧ w ≤ 1 := by
  have hcount : |(period : ℝ)| ≤ 2 ^ 64 := by
    rw [abs_of_nonneg (Nat.cast_nonneg period)]
    exact_mod_cast hword.le
  obtain ⟨hrange, hle⟩ := inRange_of_abs_le hcount (by norm_num)
  have hone : 1 ≤ rnd period := by
    rw [← rnd_one]
    exact rnd_mono (by exact_mod_cast hpos)
  have hmore : |rnd period + 1| ≤ 2 ^ 65 := by
    rw [abs_of_nonneg (by linarith)]
    have := (le_abs_self _).trans hle
    linarith
  have hsum := (denotes_ofNat hrange).add denotes_one (inRange_of_abs_le hmore (by norm_num)).1
  have htwo : Denotes (2 : Float) ((2 : ℕ) : ℝ) := denotes_natCast (by norm_num)
  have hdivisor : ((2 : ℕ) : ℝ) ≤ rnd (rnd period + 1) :=
    le_rnd htwo.representable (by push_cast; linarith)
  have hpos' : 0 < rnd (rnd period + 1) := by
    push_cast at hdivisor
    linarith
  obtain ⟨hquotient, hbelow, habove⟩ := between_rnd denotes_zero.exact denotes_one.exact
    (div_nonneg (by positivity) hpos'.le) ((div_le_one hpos').mpr hdivisor)
  exact ⟨_, htwo.div hsum hpos'.ne' hquotient, hbelow, habove⟩

/-- Half a unit more than a power of two is rounded off. -/
theorem rnd_weights_le {r : ℝ} (h : |r| ≤ 2 ^ k * (1 + 2 ^ (-53 : ℤ))) : |rnd r| ≤ 2 ^ k := by
  have hcarry : (2 : ℝ) ^ k * (1 + 2 ^ (-53 : ℤ)) = (2 ^ 53 + 1) * 2 ^ ((k : ℤ) - 53) := by
    rw [zpow_sub₀ two_ne_zero, zpow_natCast]
    norm_num
    ring
  rw [abs_rnd]
  refine (rnd_mono (h.trans_eq hcarry)).trans_eq ?_
  rw [rnd_carry (by omega), zpow_sub₀ two_ne_zero, zpow_natCast]
  field_simp

/-- The part of a weighted sum that a weight leaves to one of the numbers. -/
theorem exists_weighted {x y : Float} {w : ℝ} (hx : AtMost k x) (hy : Denotes y w) (hw : 0 ≤ w)
    (hw' : w ≤ 1) (hk : k < 1024) : ∃ r, Denotes (x * y) r ∧ |r| ≤ 2 ^ k * w := by
  obtain ⟨r, hr, hrsize⟩ := hx
  have hproduct : |r * w| ≤ 2 ^ k * w := by
    rw [abs_mul, abs_of_nonneg hw]
    exact mul_le_mul_of_nonneg_right hrsize hw
  have hbound : |r * w| ≤ 2 ^ k := hproduct.trans (mul_le_of_le_one_right (by positivity) hw')
  exact ⟨_, hr.mul hy (inRange_of_abs_le hbound hk).1,
    abs_rnd_le (hy.representable.two_pow_mul k) hproduct⟩

/-- A step of an exponential average stays within the bound of its numbers. -/
theorem atMost_emaStep {value previous : Float} (hpos : 1 ≤ period) (hword : period < 2 ^ 64)
    (hk : k < 1024) (hvalue : AtMost k value) (hprevious : AtMost k previous) :
    AtMost k (emaStep period value previous) := by
  obtain ⟨w, hw, hwlow, hwhigh⟩ := exists_emaWeight hpos hword
  obtain ⟨hrange, hrest, hrest'⟩ := between_rnd (r := 1 - w) denotes_zero.exact denotes_one.exact
    (by linarith) (by linarith)
  obtain ⟨a, ha, hasize⟩ := exists_weighted hvalue hw hwlow hwhigh hk
  obtain ⟨b, hb, hbsize⟩ := exists_weighted hprevious (denotes_one.sub hw hrange) hrest hrest' hk
  -- The two weights add up to no more than half a unit above one.
  have hweights : w + rnd (1 - w) ≤ 1 + 2 ^ (-53 : ℤ) := by
    have herror := abs_rnd_sub_le_zpow (x := 1 - w) (e := -52) (by norm_num)
      (by rw [abs_of_nonneg (by linarith)]; norm_num; linarith)
    have hhalf : (2 : ℝ) ^ (-52 : ℤ) / 2 = 2 ^ (-53 : ℤ) := by norm_num
    rw [hhalf] at herror
    linarith [(abs_le.mp herror).2]
  have hsum : |a + b| ≤ 2 ^ k * (1 + 2 ^ (-53 : ℤ)) := calc
    |a + b| ≤ 2 ^ k * w + 2 ^ k * rnd (1 - w) := (abs_add_le a b).trans (add_le_add hasize hbsize)
    _ = 2 ^ k * (w + rnd (1 - w)) := (mul_add _ _ _).symm
    _ ≤ 2 ^ k * (1 + 2 ^ (-53 : ℤ)) := mul_le_mul_of_nonneg_left hweights (by positivity)
  have hle := rnd_weights_le hsum
  exact ⟨_, ha.add hb ⟨hle.trans_lt (two_pow_lt hk)⟩, hle⟩

/-- A step with a period of zero: twice the number less the former average, which stops growing. -/
theorem atMost_emaStep_zero {value previous : Float} (hk : k + 54 < 1024)
    (hvalue : AtMost k value) (hprevious : AtMost (k + 54) previous) :
    AtMost (k + 54) (emaStep 0 value previous) := by
  have hweight : emaWeight 0 = 2 ∧ (1 : Float) - 2 = -1 := by decide +kernel
  have htwo : AtMost 1 (2 : Float) := .ofNat (n := 2) (by norm_num) (by norm_num)
  obtain ⟨a, ha, hasize⟩ := hvalue.mul htwo (by omega)
  obtain ⟨b, hb, hbsize⟩ := hprevious
  have hflip : Denotes (previous * -1) (-b) := by
    have hproduct := hb.mul denotes_one.neg (by rw [mul_neg_one]; exact hb.neg.inRange)
    rwa [mul_neg_one, hb.neg.rnd_eq] at hproduct
  have hle := abs_rnd_add_le_full (k := k + 1) (by rwa [abs_neg]) hasize
  rw [add_comm] at hle
  rw [emaStep, hweight.1, hweight.2]
  exact ⟨_, ha.add hflip ⟨hle.trans_lt (two_pow_lt hk)⟩, hle⟩

/-- What every step preserves holds of every entry. -/
theorem forall_emaFrom {good goodValue : Float → Prop}
    (hstep : ∀ value previous, goodValue value → good previous → good (emaStep period value previous))
    {previous : Float} (hprevious : good previous) (hvalues : ∀ v ∈ values, goodValue v) :
    ∀ x ∈ emaFrom period previous values, good x := by
  induction values generalizing previous with
  | nil => exact List.forall_mem_nil _
  | cons value rest ih =>
      obtain ⟨hvalue, hrest⟩ := List.forall_mem_cons.mp hvalues
      have hnext := hstep value previous hvalue hprevious
      exact List.forall_mem_cons.mpr ⟨hnext, ih hnext hrest⟩

/-- Bounds of an exponential average: that of its numbers, and `2 ^ 54` times that where the period
is zero. -/
theorem atMost_emaSeries (hword : period < 2 ^ 64) (hk : k + 54 < 1024)
    (hvalues : ∀ v ∈ values, AtMost k v) : ∀ x ∈ emaSeries values period, AtMost (k + 54) x := by
  cases values with
  | nil => exact List.forall_mem_nil _
  | cons first rest =>
      obtain ⟨hfirst, hrest⟩ := List.forall_mem_cons.mp hvalues
      refine List.forall_mem_cons.mpr ⟨hfirst.mono (by omega), ?_⟩
      rcases Nat.eq_zero_or_pos period with rfl | hpos
      · exact forall_emaFrom (fun _ _ => atMost_emaStep_zero hk) (hfirst.mono (by omega)) hrest
      · intro x hx
        exact (forall_emaFrom (fun _ _ => atMost_emaStep hpos hword (by omega)) hfirst hrest x
          hx).mono (by omega)

/-! ### Variance -/

/-- The variance of bounded numbers is a number, and not negative. -/
theorem exists_variance {variance : Float} (hvalues : ∀ v ∈ values, AtMost k v)
    (hk : 2 * k + 55 < 1024) (hword : period < 2 ^ 64)
    (h : variance? values period = some variance) :
    ∃ r, Denotes variance r ∧ 0 ≤ r ∧ |r| ≤ 2 ^ (2 * (k + 1)) := by
  rw [variance?] at h
  split_ifs at h with hcovers
  obtain rfl := Option.some.inj h
  obtain ⟨hpos, hlong⟩ := covers_iff.mp hcovers
  have hwindow : ∀ v ∈ trailing period values, AtMost k v :=
    fun v hv => hvalues v (List.mem_of_mem_drop hv)
  have hlength : (trailing period values).length = period := by
    rw [length_trailing, Nat.min_eq_left hlong]
  have hmean : AtMost k (mean (trailing period values)) :=
    .mean hwindow (by omega) (by rwa [hlength])
  generalize trailing period values = window at hwindow hlength hmean
  have hsquares : ∀ v ∈ window.map fun v => (v - mean window) * (v - mean window),
      ∃ r, Denotes v r ∧ 0 ≤ r ∧ |r| ≤ 2 ^ (2 * (k + 1)) := by
    refine List.forall_mem_map.mpr fun v hv => ?_
    obtain ⟨d, hd, hdsize⟩ := (hwindow v hv).sub hmean (by omega)
    have hsquare : |d * d| ≤ 2 ^ (2 * (k + 1)) := by
      rw [abs_mul, two_mul, pow_add]
      exact mul_le_mul hdsize hdsize (abs_nonneg d) (by positivity)
    obtain ⟨hrange, hle⟩ := inRange_of_abs_le hsquare (by omega)
    exact ⟨_, hd.mul hd hrange, rnd_nonneg (mul_self_nonneg d), hle⟩
  obtain ⟨total, hsum, hnonneg, htotal⟩ := exists_sum_nonneg hsquares (by omega)
  rw [List.length_map] at htotal
  obtain ⟨r, hr, hle, hr'⟩ := exists_shared hsum htotal (by omega) hlength.le hpos hword
  exact ⟨r, hr, hr' hnonneg, hle⟩

/-- So is the deviation. -/
theorem exists_deviation {deviation : Float} (hvalues : ∀ v ∈ values, AtMost k v)
    (hk : 2 * k + 55 < 1024) (hword : period < 2 ^ 64)
    (h : deviation? values period = some deviation) :
    ∃ r, Denotes deviation r ∧ 0 ≤ r ∧ |r| ≤ 2 ^ (k + 1) := by
  obtain ⟨variance, hvariance, rfl⟩ := Option.map_eq_some_iff.mp h
  obtain ⟨r, hr, hnonneg, hle⟩ := exists_variance hvalues hk hword hvariance
  have hroot : |√r| ≤ 2 ^ (k + 1) := by
    rw [abs_of_nonneg (Real.sqrt_nonneg r)]
    refine Real.sqrt_le_iff.mpr ⟨by positivity, ?_⟩
    rw [← pow_mul, mul_comm (k + 1)]
    exact (le_abs_self r).trans hle
  exact ⟨_, hr.sqrt hnonneg, rnd_nonneg (Real.sqrt_nonneg r),
    abs_rnd_le (representable_two_pow _) hroot⟩

end Series

namespace Indicator

open Series

variable {k period : ℕ} {bars : List Bar}

theorem atMost_closes (hsized : ∀ bar ∈ bars, bar.Sized k) : ∀ v ∈ bars.map Bar.close, AtMost k v :=
  List.forall_mem_map.mpr fun bar hbar => (hsized bar hbar).close

/-! ### Trend -/

theorem latestClose_sized (hsized : ∀ bar ∈ bars, bar.Sized k) : AtMost k (latestClose bars) := by
  rw [latestClose]
  cases hlast : bars.getLast? with
  | none => exact .zero k
  | some bar => exact (hsized bar (List.mem_of_getLast? hlast)).close

theorem sma_sized (period : ℕ) (hsized : ∀ bar ∈ bars, bar.Sized k) (hk : 53 + k < 1024)
    (hlength : bars.length < 2 ^ 64) : AtMost k (sma bars period) := by
  rw [sma, sma?]
  split_ifs with hcovers
  · refine .mean (fun v hv => atMost_closes hsized v (List.mem_of_mem_drop hv)) hk ?_
    rw [length_trailing, List.length_map]
    omega
  · exact latestClose_sized hsized

theorem ema_sized (hsized : ∀ bar ∈ bars, bar.Sized k) (hk : k + 54 < 1024)
    (hword : period < 2 ^ 64) : AtMost (k + 54) (ema bars period) := by
  rw [ema, ema?]
  split_ifs with hcovers
  · cases hlast : (emaSeries (bars.map Bar.close) period).getLast? with
    | none => exact (latestClose_sized hsized).mono (by omega)
    | some x =>
        exact atMost_emaSeries hword hk (atMost_closes hsized) x (List.mem_of_getLast? hlast)
  · exact (latestClose_sized hsized).mono (by omega)

/-- The bands stand around a mean at a deviation that is not negative, or all at the latest close. -/
theorem bollinger_cases (period : ℕ) (deviations : Float) (hsized : ∀ bar ∈ bars, bar.Sized k)
    (hk : 2 * k + 55 < 1024) (hword : min period bars.length < 2 ^ 64) :
    (∃ middle deviation, AtMost k middle ∧
      (∃ r, Denotes deviation r ∧ 0 ≤ r ∧ |r| ≤ 2 ^ (k + 1)) ∧
      bollinger bars period deviations =
        ⟨middle + deviations * deviation, middle, middle - deviations * deviation⟩) ∨
    bollinger bars period deviations =
      ⟨latestClose bars, latestClose bars, latestClose bars⟩ := by
  have hcloses := atMost_closes hsized
  rw [bollinger]
  split
  next middle deviation hmiddle hdeviation =>
    rw [sma?] at hmiddle
    split_ifs at hmiddle with hcovers
    obtain ⟨-, hlong⟩ := covers_iff.mp hcovers
    rw [List.length_map] at hlong
    refine .inl ⟨middle, deviation, ?_, exists_deviation hcloses hk (by omega) hdeviation, rfl⟩
    obtain rfl := Option.some.inj hmiddle
    refine .mean (fun v hv => hcloses v (List.mem_of_mem_drop hv)) (by omega) ?_
    rw [length_trailing, List.length_map]
    omega
  next => exact .inr rfl

/-- The bands of bounded closes are bounded. -/
theorem bollinger_sized {j : ℕ} {deviations : Float} (period : ℕ)
    (hsized : ∀ bar ∈ bars, bar.Sized k) (hdeviations : AtMost j deviations)
    (hk : 2 * k + 55 < 1024) (hjk : j + k + 2 < 1024) (hword : min period bars.length < 2 ^ 64) :
    AtMost (j + k + 2) (bollinger bars period deviations).upper ∧
      AtMost k (bollinger bars period deviations).middle ∧
      AtMost (j + k + 2) (bollinger bars period deviations).lower := by
  rcases bollinger_cases period deviations hsized hk hword with
    ⟨middle, deviation, hmiddle, ⟨r, hr, -, hle⟩, hbands⟩ | hbands
  · have hspread : AtMost (j + k + 1) (deviations * deviation) :=
      hdeviations.mul ⟨r, hr, hle⟩ (by omega)
    rw [hbands]
    exact ⟨(hmiddle.mono (by omega)).add hspread hjk, hmiddle,
      (hmiddle.mono (by omega)).sub hspread hjk⟩
  · have hlatest := latestClose_sized hsized
    rw [hbands]
    exact ⟨hlatest.mono (by omega), hlatest, hlatest.mono (by omega)⟩

/-- The bands are in order, where the number of deviations is not negative. -/
theorem bollinger_ordered {j : ℕ} {deviations : Float} (period : ℕ)
    (hsized : ∀ bar ∈ bars, bar.Sized k) (hdeviations : AtMost j deviations)
    (hnonneg : 0 ≤ deviations) (hk : 2 * k + 55 < 1024) (hjk : j + k + 2 < 1024)
    (hword : min period bars.length < 2 ^ 64) :
    (bollinger bars period deviations).lower ≤ (bollinger bars period deviations).middle ∧
      (bollinger bars period deviations).middle ≤ (bollinger bars period deviations).upper := by
  rcases bollinger_cases period deviations hsized hk hword with
    ⟨middle, deviation, ⟨m, hm, hmsize⟩, ⟨r, hr, hr', hle⟩, hbands⟩ | hbands
  · obtain ⟨c, hc, hcsize⟩ := hdeviations
    have hc' : 0 ≤ c := (denotes_zero.le_iff hc).mp hnonneg
    have hproduct : |c * r| ≤ 2 ^ (j + (k + 1)) := by
      rw [abs_mul, pow_add]
      exact mul_le_mul hcsize hle (abs_nonneg r) (by positivity)
    obtain ⟨hrange, hsize⟩ := inRange_of_abs_le hproduct (by omega)
    have hspread := hc.mul hr hrange
    have hspread' : 0 ≤ rnd (c * r) := rnd_nonneg (mul_nonneg hc' hr')
    have hmsize' : |m| ≤ 2 ^ (j + (k + 1)) :=
      hmsize.trans (pow_le_pow_right₀ one_le_two (by omega))
    have hplus : |m + rnd (c * r)| ≤ 2 ^ (j + k + 2) := by
      rw [show j + k + 2 = j + (k + 1) + 1 by ring, pow_succ]
      linarith [abs_add_le m (rnd (c * r))]
    have hminus : |m - rnd (c * r)| ≤ 2 ^ (j + k + 2) := by
      rw [show j + k + 2 = j + (k + 1) + 1 by ring, pow_succ]
      linarith [abs_sub m (rnd (c * r))]
    have hupper := hm.add hspread (inRange_of_abs_le hplus hjk).1
    have hlower := hm.sub hspread (inRange_of_abs_le hminus hjk).1
    rw [hbands]
    exact ⟨(hlower.le_iff hm).mpr (rnd_le hm.representable (by linarith)),
      (hm.le_iff hupper).mpr (le_rnd hm.representable (by linarith))⟩
  · have hfinite := (latestClose_sized hsized).finite
    rw [hbands]
    exact ⟨le_refl_of_finite hfinite, le_refl_of_finite hfinite⟩

/-! ### Momentum -/

/-- The differences of two exponential averages are bounded. -/
theorem atMost_macdSeries {closes : List Float} {fast slow : ℕ} (hfast : fast < 2 ^ 64)
    (hslow : slow < 2 ^ 64) (hk : k + 55 < 1024) (hcloses : ∀ v ∈ closes, AtMost k v) :
    ∀ x ∈ macdSeries closes fast slow, AtMost (k + 55) x := by
  intro x hx
  rw [macdSeries, ← List.map_uncurry_zip_eq_zipWith] at hx
  obtain ⟨⟨a, b⟩, hab, rfl⟩ := List.mem_map.mp hx
  obtain ⟨ha, hb⟩ := List.of_mem_zip hab
  exact (atMost_emaSeries hfast (by omega) hcloses a ha).sub
    (atMost_emaSeries hslow (by omega) hcloses b hb) hk

/-- The end of a list of bounded numbers. -/
theorem atMost_getLast?_getD {values : List Float} {other : Float} (hother : AtMost k other)
    (hvalues : ∀ v ∈ values, AtMost k v) : AtMost k (values.getLast?.getD other) := by
  cases hlast : values.getLast? with
  | none => exact hother
  | some x => exact hvalues x (List.mem_of_getLast? hlast)

/-- The averages' difference, its signal line and their difference are bounded. -/
theorem macd_sized {fast slow signal : ℕ} (method : SignalLine)
    (hsized : ∀ bar ∈ bars, bar.Sized k) (hk : k + 110 < 1024) (hfast : fast < 2 ^ 64)
    (hslow : slow < 2 ^ 64) (hsignal : signal < 2 ^ 64) :
    AtMost (k + 55) (macd bars fast slow signal method).line ∧
      AtMost (k + 109) (macd bars fast slow signal method).signal ∧
      AtMost (k + 110) (macd bars fast slow signal method).histogram := by
  rw [macd]
  split_ifs with hshort
  · exact ⟨.zero _, .zero _, .zero _⟩
  have hseries := atMost_macdSeries hfast hslow (by omega) (atMost_closes hsized)
  have hline := atMost_getLast?_getD (.zero (k + 55)) hseries
  generalize macdSeries (bars.map Bar.close) fast slow = series at hseries hline
  cases method with
  | average =>
      have hend : AtMost (k + 109) ((emaSeries series signal).getLast?.getD
          (series.getLast?.getD 0)) :=
        atMost_getLast?_getD (hline.mono (by omega))
          (atMost_emaSeries hsignal (by omega) hseries)
      exact ⟨hline, hend, (hline.mono (by omega)).sub hend (by omega)⟩
  | scaled =>
      have hfactor : AtMost 0 scaledSignalFactor :=
        atMost_of_abs_le (by decide +kernel) ⟨1, denotes_one, by norm_num⟩ (by decide +kernel)
      have hend := (hline.mul hfactor (by omega)).mono (by omega : k + 55 + 0 ≤ k + 109)
      exact ⟨hline, hend, (hline.mono (by omega)).sub hend (by omega)⟩

/-- The place of the close in some bars that close in their own ranges. -/
theorem percentK_between {window : List Bar} (hsized : ∀ bar ∈ window, bar.Sized k)
    (hk : k + 1 < 1024) (hordered : ∀ bar ∈ window, bar.Ordered) :
    ∃ r, Denotes (percentK window) r ∧ 0 ≤ r ∧ r ≤ 100 := by
  rcases eq_or_ne window [] with rfl | hsome
  · exact ⟨50, denotes_natCast (n := 50) (by norm_num), by norm_num, by norm_num⟩
  · obtain ⟨highest, lowest, close, hranged⟩ := exists_ranged hsome
    obtain ⟨hlow, hhigh⟩ := hranged.close_between hsized hordered
    exact exists_percentK hranged hsized hk hlow hhigh

theorem percentR_between {window : List Bar} (hsized : ∀ bar ∈ window, bar.Sized k)
    (hk : k + 1 < 1024) (hordered : ∀ bar ∈ window, bar.Ordered) :
    ∃ r, Denotes (percentR window) r ∧ -100 ≤ r ∧ r ≤ 0 := by
  rcases eq_or_ne window [] with rfl | hsome
  · exact ⟨-50, (denotes_natCast (n := 50) (by norm_num)).neg, by norm_num, by norm_num⟩
  · obtain ⟨highest, lowest, close, hranged⟩ := exists_ranged hsome
    obtain ⟨hlow, hhigh⟩ := hranged.close_between hsized hordered
    exact exists_percentR hranged hsized hk hlow hhigh

/-- What is from zero to a hundred is less than `2 ^ 7`. -/
theorem atMost_of_between {x : Float} (h : ∃ r, Denotes x r ∧ 0 ≤ r ∧ r ≤ 100) : AtMost 7 x := by
  obtain ⟨r, hr, hlow, hhigh⟩ := h
  exact ⟨r, hr, by rw [abs_of_nonneg hlow]; linarith⟩

/-- The recent places of bars that close in their own ranges. -/
theorem stochastic_sized {K D : ℕ} (hsized : ∀ bar ∈ bars, bar.Sized k) (hk : k + 1 < 1024)
    (hordered : ∀ bar ∈ bars, bar.Ordered) (hlength : bars.length < 2 ^ 64) :
    AtMost 7 (stochastic bars K D).k ∧ AtMost 7 (stochastic bars K D).d := by
  have hneutral : AtMost 7 neutralStochastic := .ofNat (n := 50) (by norm_num) (by norm_num)
  rw [stochastic]
  split_ifs with hshort
  · exact ⟨hneutral, hneutral⟩
  have hplaces : ∀ x ∈ percentKs bars K D, AtMost 7 x := by
    refine List.forall_mem_map.mpr fun age _ => ?_
    have hmem : ∀ bar ∈ earlierWindow bars K age, bar ∈ bars :=
      fun bar hbar => List.mem_of_mem_take (List.mem_of_mem_drop hbar)
    exact atMost_of_between (percentK_between (fun bar hbar => hsized bar (hmem bar hbar)) hk
      fun bar hbar => hordered bar (hmem bar hbar))
  refine ⟨?_, .mean hplaces (by norm_num) ?_⟩
  · cases hcons : percentKs bars K D with
    | nil => exact hneutral
    | cons place rest => exact hplaces place (by rw [hcons]; exact List.mem_cons_self)
  · rw [percentKs, List.length_map, List.length_range]
    omega

theorem williamsR_sized (period : ℕ) (hsized : ∀ bar ∈ bars, bar.Sized k) (hk : k + 1 < 1024)
    (hordered : ∀ bar ∈ bars, bar.Ordered) : AtMost 7 (williamsR bars period) := by
  have hmem : ∀ bar ∈ trailing period bars, bar ∈ bars := fun _ => List.mem_of_mem_drop
  rw [williamsR]
  split_ifs with hcovers
  · obtain ⟨r, hr, hlow, hhigh⟩ := percentR_between
      (fun bar hbar => hsized bar (hmem bar hbar)) hk fun bar hbar => hordered bar (hmem bar hbar)
    exact ⟨r, hr, by rw [abs_of_nonpos hhigh]; linarith⟩
  · exact (AtMost.ofNat (n := 50) (by norm_num) (by norm_num)).neg

/-- What is brought between two numbers is one. -/
theorem clamp_hundred_sized {x : Float} (hx : x.isNaN = false) : AtMost 7 (clamp x 0 100) := by
  obtain ⟨hbelow, habove⟩ := clamp_between hx (by decide : (0 : Float) ≤ 100)
  have dclamped := denotes_toReal (finite_of_between denotes_zero denotes_hundred hbelow habove)
  have hl := (denotes_zero.le_iff dclamped).mp hbelow
  have hh := (dclamped.le_iff denotes_hundred).mp habove
  exact atMost_of_between ⟨_, dclamped, hl, hh⟩

/-- Before it is clamped, relative strength is a number wherever the quotient of its means is. -/
theorem isNaN_unclamped {quotient : Float} (h : quotient.isNaN = false) :
    (100 - 100 / (1 + quotient)).isNaN = false :=
  isNaN_sub denotes_hundred
    (isNaN_div_of_ne_zero denotes_hundred (by norm_num) (isNaN_add denotes_one h))

/-- Relative strength of two means is a number from zero to a hundred. -/
theorem rsiOf_sized {gain loss : Float} (hgain : AtMost k gain) (hloss : AtMost k loss) :
    AtMost 7 (rsiOf gain loss) := by
  obtain ⟨g, hg, -⟩ := hgain
  obtain ⟨l, hl, -⟩ := hloss
  rw [rsiOf]
  split_ifs with hnoLoss hnoGain
  · exact .ofNat (n := 50) (by norm_num) (by norm_num)
  · exact .ofNat (n := 100) (by norm_num) (by norm_num)
  · have hne : l ≠ 0 := fun hzero => hnoLoss ((hl.beq_iff denotes_zero).mpr hzero)
    exact clamp_hundred_sized (isNaN_unclamped (isNaN_div hg hl hne))

/-- What holds of every two entries holds of all values of neighbours. -/
theorem forall_mem_neighbours {α β : Type} (value : α → α → β) (good : β → Prop) {list : List α}
    (h : ∀ a ∈ list, ∀ b ∈ list, good (value a b)) : ∀ x ∈ neighbours value list, good x := by
  intro x hx
  rw [neighbours, ← List.map_uncurry_zip_eq_zipWith] at hx
  obtain ⟨⟨a, b⟩, hab, rfl⟩ := List.mem_map.mp hx
  obtain ⟨ha, hb⟩ := List.of_mem_zip hab
  exact h a ha b (List.mem_of_mem_tail hb)

/-- The gains and losses among bounded differences have bounded means. -/
theorem rsi_sized (period : ℕ) (hsized : ∀ bar ∈ bars, bar.Sized k) (hk : k + 54 < 1024)
    (hlength : bars.length < 2 ^ 64) : AtMost 7 (rsi bars period) := by
  rw [rsi]
  split_ifs with hshort
  · exact .ofNat (n := 50) (by norm_num) (by norm_num)
  have hdeltas : ∀ d ∈ trailing period (closeDeltas bars), AtMost (k + 1) d := by
    rw [closeDeltas_eq_neighbours]
    have hall := forall_mem_neighbours (fun former bar : Bar => bar.close - former.close)
      (AtMost (k + 1)) fun former hformer bar hbar =>
        (hsized bar hbar).close.sub (hsized former hformer).close (by omega)
    exact fun d hd => hall d (List.mem_of_mem_drop hd)
  have hcount := length_trailing_le period (closeDeltas bars)
  refine rsiOf_sized (k := k + 1) (.shared ?_ (by omega) ?_ (by omega) (by omega))
    (.shared ?_ (by omega) ?_ (by omega) (by omega))
  · exact fun d hd => hdeltas d (List.mem_of_mem_filter hd)
  · exact (List.length_filter_le _ _).trans hcount
  · exact List.forall_mem_map.mpr fun d hd => (hdeltas d (List.mem_of_mem_filter hd)).neg
  · rw [List.length_map]
    exact (List.length_filter_le _ _).trans hcount

/-! ### Volatility and volume -/

theorem trueRange_sized {high low formerClose : Float} (hhigh : AtMost k high)
    (hlow : AtMost k low) (hclose : AtMost k formerClose) (hk : k + 1 < 1024) :
    AtMost (k + 1) (trueRange high low formerClose) :=
  ((hhigh.sub hlow hk).larger (hhigh.sub hclose hk).abs).larger (hlow.sub hclose hk).abs

theorem atr_sized (period : ℕ) (hsized : ∀ bar ∈ bars, bar.Sized k) (hk : k + 54 < 1024)
    (hlength : bars.length < 2 ^ 64) : AtMost (k + 1) (atr bars period) := by
  have hall := forall_mem_neighbours
    (fun former bar : Bar => trueRange bar.high bar.low former.close) (AtMost (k + 1))
    fun former hformer bar hbar => trueRange_sized (hsized bar hbar).high (hsized bar hbar).low
      (hsized former hformer).close (by omega)
  rw [atr, trueRanges_eq_neighbours]
  refine .mean (fun v hv => hall v (List.mem_of_mem_drop hv)) (by omega) ?_
  rw [length_trailing, length_neighbours]
  omega

/-- A balance that a volume is added to or taken from stops growing. -/
theorem balance_sized {balance : Float} (hbalance : AtMost 117 balance) (volume : UInt64) :
    AtMost 117 (balance + volume.toFloat) ∧ AtMost 117 (balance - volume.toFloat) := by
  obtain ⟨b, hb, hbsize⟩ := hbalance
  have hcount : |((volume.toNat : ℕ) : ℝ)| ≤ 2 ^ 64 := by
    rw [abs_of_nonneg (Nat.cast_nonneg _)]
    exact_mod_cast volume.toNat_lt.le
  obtain ⟨hrange, hle⟩ := inRange_of_abs_le hcount (by norm_num)
  have hvolume : Denotes volume.toFloat (rnd volume.toNat) := denotes_ofModel_ofNat hrange
  have hadd := abs_rnd_add_le_full hbsize hle
  have hsub := abs_rnd_add_le_full (r := -rnd volume.toNat) hbsize (by rwa [abs_neg])
  rw [← sub_eq_add_neg] at hsub
  exact ⟨⟨_, hb.add hvolume ⟨hadd.trans_lt (two_pow_lt (by norm_num))⟩, hadd⟩,
    ⟨_, hb.sub hvolume ⟨hsub.trans_lt (two_pow_lt (by norm_num))⟩, hsub⟩⟩

theorem atMost_obvFrom {former : Bar} {balance : Float} {rest : List Bar}
    (hbalance : AtMost 117 balance) : ∀ x ∈ obvFrom former balance rest, AtMost 117 x := by
  induction rest generalizing former balance with
  | nil => exact List.forall_mem_nil _
  | cons bar rest ih =>
      have hnext : AtMost 117 (if former.close < bar.close then balance + bar.volume.toFloat
          else if bar.close < former.close then balance - bar.volume.toFloat else balance) := by
        split_ifs
        · exact (balance_sized hbalance bar.volume).1
        · exact (balance_sized hbalance bar.volume).2
        · exact hbalance
      exact List.forall_mem_cons.mpr ⟨hnext, ih hnext⟩

/-- The balance of volume is bounded, whatever the prices are. -/
theorem obv_sized (bars : List Bar) : AtMost 117 (obv bars) := by
  refine atMost_getLast?_getD (.zero _) ?_
  cases bars with
  | nil => exact List.forall_mem_nil _
  | cons first rest => exact List.forall_mem_cons.mpr ⟨.zero _, atMost_obvFrom (.zero _)⟩

end Indicator

/-! ### All readings -/

/-- Every single reading is finite. -/
def Readings.Finite (r : Readings) : Prop :=
  ∀ entry ∈ r.flat, entry.2.isFinite = true

instance (r : Readings) : Decidable r.Finite :=
  inferInstanceAs (Decidable (∀ entry ∈ r.flat, entry.2.isFinite = true))

/-- **The readings of bounded prices that close in their own ranges are bounded.** -/
theorem Lookbacks.readings_sized {l : Lookbacks} {bars : List Bar} {j k bound : ℕ}
    (hsized : ∀ bar ∈ bars, bar.Sized k) (hordered : ∀ bar ∈ bars, bar.Ordered)
    (hdeviations : AtMost j l.bollingerDeviations) (hk : 2 * k + 55 < 1024)
    (hjk : j + k + 2 < 1024) (hlength : bars.length < 2 ^ 64) (hfast : l.emaFast < 2 ^ 64)
    (hslow : l.emaSlow < 2 ^ 64) (hsignal : l.macdSignal < 2 ^ 64) (hbands : j + k + 2 ≤ bound)
    (hothers : k + 117 ≤ bound) : ∀ entry ∈ (l.readings bars).flat, AtMost bound entry.2 := by
  obtain ⟨hline, hend, hhistogram⟩ := Indicator.macd_sized l.signalLine hsized (by omega)
    hfast hslow hsignal
  obtain ⟨hupper, hmiddle, hlower⟩ := Indicator.bollinger_sized l.bollinger hsized hdeviations hk
    hjk (by omega)
  obtain ⟨hK, hD⟩ := Indicator.stochastic_sized (K := l.stochasticK) (D := l.stochasticD) hsized
    (by omega) hordered hlength
  have hatr := Indicator.atr_sized l.atr hsized (by omega) hlength
  have hfastAverage := Indicator.ema_sized hsized (by omega) hfast
  have hslowAverage := Indicator.ema_sized hsized (by omega) hslow
  have hshort := Indicator.sma_sized l.smaShort hsized (by omega) hlength
  have hlong := Indicator.sma_sized l.smaLong hsized (by omega) hlength
  have hrsi := Indicator.rsi_sized l.rsi hsized (by omega) hlength
  have hwilliams := Indicator.williamsR_sized l.williams hsized (by omega) hordered
  have hbalance := Indicator.obv_sized bars
  simp only [Readings.flat, List.forall_mem_cons, Lookbacks.readings]
  refine ⟨hatr.mono ?_, hlower.mono ?_, hmiddle.mono ?_, hupper.mono ?_, hfastAverage.mono ?_,
    hslowAverage.mono ?_, hline.mono ?_, hhistogram.mono ?_, hend.mono ?_, hbalance.mono ?_,
    hrsi.mono ?_, hshort.mono ?_, hlong.mono ?_, hD.mono ?_, hK.mono ?_, hwilliams.mono ?_,
    List.forall_mem_nil _⟩ <;> omega

end MarketSignals
