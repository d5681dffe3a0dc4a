import MarketSignals.Proofs.Float.Extended
import MarketSignals.Proofs.Indicator.Sizes

/-!
# Relative strength of every series

The closes of a series are finite, but their differences need not be, and neither need the sums of
gains and losses. The mean gain and the mean loss are floats that are not negative all the same,
since what is no number is neither a gain nor a loss. Relative strength is then a number from zero
to a hundred, save where both means are infinite: their quotient is no number, and clamping lets it
pass.

The extremes belong to means that are zero, not to series without gains or losses. Gains so small
that their mean is rounded to zero count as none.

## Main results

* `isNaN_rsiOf_iff`, `rsiOf_between`: relative strength of means that are not negative.
* `rsi_saturates`: its range, its extremes and the one exception.
-/

namespace MarketSignals.Indicator

open Binary64 Series

/-! ### Of two means -/

section

variable {gain loss : Float}

/-- Relative strength is from zero to a hundred unless both means are infinite. -/
theorem rsiOf_between (hgain : 0 ≤ gain) (hloss : 0 ≤ loss)
    (hinf : ¬ (gain = Float.inf ∧ loss = Float.inf)) :
    0 ≤ rsiOf gain loss ∧ rsiOf gain loss ≤ 100 := by
  rw [rsiOf]
  split_ifs with hnoLoss hnoGain
  · decide
  · decide
  · have hquotient : (gain / loss).isNaN = false := by
      rwa [← Bool.not_eq_true, isNaN_div_iff hgain hloss hnoLoss]
    exact clamp_between (isNaN_unclamped hquotient) (by decide)

/-- **Relative strength is no number exactly where both means are infinite.** -/
theorem isNaN_rsiOf_iff (hgain : 0 ≤ gain) (hloss : 0 ≤ loss) :
    (rsiOf gain loss).isNaN = true ↔ gain = Float.inf ∧ loss = Float.inf := by
  constructor
  · intro hnan
    by_contra hinf
    rw [isNaN_of_nonneg (rsiOf_between hgain hloss hinf).1] at hnan
    cases hnan
  · rintro ⟨rfl, rfl⟩
    decide

theorem rsiOf_still (hgain : (gain == 0) = true) (hloss : (loss == 0) = true) :
    rsiOf gain loss = 50 := by
  rw [rsiOf, if_pos hloss, if_pos hgain, neutralRsi]

theorem rsiOf_without_loss (hgain : ¬ (gain == 0) = true) (hloss : (loss == 0) = true) :
    rsiOf gain loss = 100 := by
  rw [rsiOf, if_pos hloss, if_neg hgain]

/-- Without a gain the quotient is a zero, of either sign, and so is relative strength. -/
theorem rsiOf_without_gain (hgain : (gain == 0) = true) (hnonneg : 0 ≤ loss)
    (hloss : ¬ (loss == 0) = true) : rsiOf gain loss = 0 := by
  rw [rsiOf, if_neg hloss]
  rcases eq_zero_or_of_beq (zero_div hgain hnonneg hloss) with hquotient | hquotient
  · rw [hquotient]
    decide
  · rw [hquotient]
    decide

end

/-! ### Of a series -/

/-- The mean gain of the last `period` differences. -/
def recentGain (bars : List Bar) (period : ℕ) : Float :=
  averageGain (trailing period (closeDeltas bars)) period

/-- The mean loss of the last `period` differences. -/
def recentLoss (bars : List Bar) (period : ℕ) : Float :=
  averageLoss (trailing period (closeDeltas bars)) period

section

variable {bars : List Bar} {period : ℕ}

theorem rsi_eq_rsiOf (hpos : 1 ≤ period) (h : period < bars.length) :
    rsi bars period = rsiOf (recentGain bars period) (recentLoss bars period) := by
  rw [rsi, if_neg (by omega)]
  rfl

/-- Only what is above zero is a gain. -/
theorem averageGain_nonneg (deltas : List Float) (hpos : 1 ≤ period) (hword : period < 2 ^ 64) :
    0 ≤ averageGain deltas period := by
  refine nonneg_shared (nonneg_sum fun d hd => ?_) hpos hword
  exact le_of_lt (of_decide_eq_true (List.mem_filter.mp hd).2)

/-- Only what is below zero is a loss. -/
theorem averageLoss_nonneg (deltas : List Float) (hpos : 1 ≤ period) (hword : period < 2 ^ 64) :
    0 ≤ averageLoss deltas period := by
  refine nonneg_shared (nonneg_sum (List.forall_mem_map.mpr fun d hd => ?_)) hpos hword
  exact nonneg_neg (of_decide_eq_true (List.mem_filter.mp hd).2)

/-- **Relative strength is in its range and saturates.** For every series and every period of 64
bits that the series is longer than, the mean gain and the mean loss are numbers and not negative.
Relative strength is no number exactly where both are infinite, and otherwise a number from zero to
a hundred: fifty where both are zero, a hundred where only the loss is, and zero where only the gain
is. The closes may be anything; they need not even be finite. -/
theorem rsi_saturates (hpos : 1 ≤ period) (hword : period < 2 ^ 64) (h : period < bars.length) :
    ((recentGain bars period).isNaN = false ∧ 0 ≤ recentGain bars period) ∧
    ((recentLoss bars period).isNaN = false ∧ 0 ≤ recentLoss bars period) ∧
    ((rsi bars period).isNaN = true ↔
      recentGain bars period = Float.inf ∧ recentLoss bars period = Float.inf) ∧
    ((rsi bars period).isNaN = false → 0 ≤ rsi bars period ∧ rsi bars period ≤ 100) ∧
    ((recentGain bars period == 0) = true → (recentLoss bars period == 0) = true →
      rsi bars period = 50) ∧
    ((recentGain bars period == 0) = false → (recentLoss bars period == 0) = true →
      rsi bars period = 100) ∧
    ((recentGain bars period == 0) = true → (recentLoss bars period == 0) = false →
      rsi bars period = 0) := by
  have hgain : 0 ≤ recentGain bars period := averageGain_nonneg _ hpos hword
  have hloss : 0 ≤ recentLoss bars period := averageLoss_nonneg _ hpos hword
  rw [rsi_eq_rsiOf hpos h]
  have hnan := isNaN_rsiOf_iff hgain hloss
  refine ⟨⟨isNaN_of_nonneg hgain, hgain⟩, ⟨isNaN_of_nonneg hloss, hloss⟩, hnan, ?_, rsiOf_still,
    ?_, ?_⟩
  · intro hnumber
    refine rsiOf_between hgain hloss fun hinf => ?_
    rw [hnan.mpr hinf] at hnumber
    cases hnumber
  · exact fun hsome hnone => rsiOf_without_loss (Bool.not_eq_true _ ▸ hsome) hnone
  · exact fun hnone hsome => rsiOf_without_gain hnone hloss (Bool.not_eq_true _ ▸ hsome)

end

/-- Three closes whose differences overflow both ways. -/
def swings : List Bar :=
  [barAt (-1e308), barAt 1e308, barAt (-1e308)]

/-- Finite closes whose differences overflow both ways have no relative strength. Fifteen bars that
rise and fall have one in its range. -/
theorem rsi_saturates_swings : (∀ bar ∈ swings, bar.close.isFinite = true) ∧
    (rsi swings 2).isNaN = true ∧ 0 ≤ rsi fifteenBars 14 ∧ rsi fifteenBars 14 ≤ 100 := by
  obtain ⟨-, -, hexception, -⟩ :=
    @rsi_saturates swings 2 (by decide) (by decide) (by decide)
  obtain ⟨-, -, -, hrange, -⟩ :=
    @rsi_saturates fifteenBars 14 (by decide) (by decide) (by decide)
  have hinfinite : recentGain swings 2 = Float.inf ∧ recentLoss swings 2 = Float.inf := by
    decide +kernel
  exact ⟨by decide +kernel, hexception.mpr hinfinite, hrange (by decide +kernel)⟩

end MarketSignals.Indicator
