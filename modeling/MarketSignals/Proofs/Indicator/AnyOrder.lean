import Mathlib.Data.List.Nodup
import MarketSignals.Proofs.Indicator.Compute
import MarketSignals.Proofs.Sorting

/-!
# Bars in any order

A snapshot does not depend on the order in which its bars are given, where no two are of one time:
there is only one way to put them in the order of time, and every indicator reads them in that
order. The bars themselves are not compared, only their times, so bars of one time would stay in
the order they came in.

Of several bars with a price that is no number, the first one is reported. That one may be another
in another order, so two orders agree that the prices cannot be used, but may blame different bars.

All this is about periods that can be added up. Where a sum of periods is no machine word, there is
no outcome to compare.

## Main results

* `sortByTime_eq_of_perm`: bars of different times have one order of time.
* `compute_any_order`: what the computation of a snapshot comes to for two orders of the same bars.
* `overflow_without_outcome`: a period that leaves the computation without an outcome.
-/

namespace MarketSignals

variable {bars bars' : List Bar}

theorem Bar.noLaterThan_trans (a b c : Bar) (hab : a.noLaterThan b) (hbc : b.noLaterThan c) :
    a.noLaterThan c := by
  simp only [noLaterThan, decide_eq_true_eq] at hab hbc ⊢
  exact Timestamp.le_trans hab hbc

theorem Bar.noLaterThan_total (a b : Bar) : a.noLaterThan b || b.noLaterThan a := by
  simp only [noLaterThan, Bool.or_eq_true, decide_eq_true_eq]
  exact Timestamp.le_total a.time b.time

/-- Sorted bars are in the order of time. -/
theorem ordered_sortByTime (bars : List Bar) : (sortByTime bars).Pairwise (·.time ≤ ·.time) :=
  (List.pairwise_mergeSort Bar.noLaterThan_trans Bar.noLaterThan_total bars).imp of_decide_eq_true

theorem sortByTime_perm (bars : List Bar) : (sortByTime bars).Perm bars :=
  List.mergeSort_perm bars Bar.noLaterThan

/-- Bars of different times have one order of time, however they are given. -/
theorem sortByTime_eq_of_perm (hperm : bars.Perm bars') (htimes : (bars.map Bar.time).Nodup) :
    sortByTime bars = sortByTime bars' := by
  refine mergeSort_eq_of_perm Bar.noLaterThan_trans Bar.noLaterThan_total hperm ?_
  intro a ha b hb hab hba
  exact List.inj_on_of_nodup_map htimes ha hb
    (Timestamp.le_antisymm (of_decide_eq_true hab) (of_decide_eq_true hba))

namespace Lookbacks

/-- **The order of the bars does not matter.** With periods whose sums are machine words, two orders
of the same bars of different times both have too few bars, by the same numbers; or both have a bar
with a price that is no number, and each reports such a bar; or both have one and the same
snapshot. -/
theorem compute_any_order (l : Lookbacks) (hfits : l.SumsFit) (symbol : String)
    (hperm : bars.Perm bars') (htimes : (bars.map Bar.time).Nodup) :
    (bars.length < l.requiredBars ∧
      l.compute? symbol bars = some (.error (.insufficientData l.requiredBars bars.length)) ∧
      l.compute? symbol bars' = some (.error (.insufficientData l.requiredBars bars.length))) ∨
    (l.requiredBars ≤ bars.length ∧ ∃ bad ∈ bars, ∃ bad' ∈ bars,
      bad.isFinite = false ∧ bad'.isFinite = false ∧
      l.compute? symbol bars = some (.error (.nonFinitePrice bad.symbol bad.time)) ∧
      l.compute? symbol bars' = some (.error (.nonFinitePrice bad'.symbol bad'.time))) ∨
    (l.requiredBars ≤ bars.length ∧ (∀ bar ∈ bars, bar.isFinite = true) ∧ ∃ snapshot,
      l.compute? symbol bars = some (.ok snapshot) ∧
      l.compute? symbol bars' = some (.ok snapshot)) := by
  simp only [compute?_of_sumsFit hfits, Option.some.injEq]
  have hlength := hperm.length_eq
  rcases Nat.lt_or_ge bars.length l.requiredBars with hshort | henough
  · refine .inl ⟨hshort, compute_of_short hshort, ?_⟩
    rw [hlength] at hshort ⊢
    exact compute_of_short hshort
  have henough' : l.requiredBars ≤ bars'.length := hlength ▸ henough
  by_cases hbad : ∃ bar ∈ bars, bar.isFinite = false
  · obtain ⟨bad, hmem, hno, hcompute⟩ := compute_of_nonFinite symbol henough hbad
    have hbad' : ∃ bar ∈ bars', bar.isFinite = false :=
      hbad.imp fun bar h => ⟨hperm.mem_iff.mp h.1, h.2⟩
    obtain ⟨bad', hmem', hno', hcompute'⟩ := compute_of_nonFinite symbol henough' hbad'
    exact .inr (.inl ⟨henough, bad, hmem, bad', hperm.mem_iff.mpr hmem', hno, hno', hcompute,
      hcompute'⟩)
  · have hfinite : ∀ bar ∈ bars, bar.isFinite = true := fun bar hbar => by
      simpa using fun hno => hbad ⟨bar, hbar, hno⟩
    obtain ⟨newest, hnewest, hcompute⟩ := compute_of_finite symbol henough hfinite
    obtain ⟨newest', hnewest', hcompute'⟩ :=
      compute_of_finite symbol henough' fun bar hbar => hfinite bar (hperm.mem_iff.mpr hbar)
    -- The two computations read one sorted series, so they agree in every indicator and the time.
    rw [← sortByTime_eq_of_perm hperm htimes] at hnewest' hcompute'
    obtain rfl : newest = newest' := Option.some.inj (hnewest.symm.trans hnewest')
    exact .inr (.inr ⟨henough, hfinite, _, hcompute, hlength ▸ hcompute'⟩)

/-- Fifty bars, one for each of fifty days, that rise and fall. -/
def fiftyDays : List Bar :=
  (List.range 50).map fun day =>
    ⟨"AAPL", "NASDAQ", 10, 12, 9, if day % 3 = 0 then 10 else 11, 1000, 0,
      (Timestamp.of? (day * secondsPerDay) 0).getD .epoch⟩

/-- The fifty bars have a snapshot. -/
theorem exists_compute_fiftyDays : ∃ snapshot,
    ({} : Lookbacks).compute "AAPL" fiftyDays = .ok snapshot := by
  have henough : ({} : Lookbacks).requiredBars ≤ fiftyDays.length := by decide +kernel
  have hfinite : ∀ bar ∈ fiftyDays, bar.isFinite = true := by decide +kernel
  obtain ⟨newest, -, hcompute⟩ := compute_of_finite "AAPL" henough hfinite
  exact ⟨_, hcompute⟩

/-- Read backwards, the fifty bars have the same snapshot. -/
theorem compute_any_order_reversed : ∃ snapshot,
    ({} : Lookbacks).compute? "AAPL" fiftyDays = some (.ok snapshot) ∧
      ({} : Lookbacks).compute? "AAPL" fiftyDays.reverse = some (.ok snapshot) := by
  have henough : ({} : Lookbacks).requiredBars = 50 ∧ fiftyDays.length = 50 := by decide +kernel
  have hfinite : ∀ bar ∈ fiftyDays, bar.isFinite = true := by decide +kernel
  have hfits : ({} : Lookbacks).SumsFit := ⟨by decide, by decide, by decide⟩
  rcases compute_any_order {} hfits "AAPL" (List.reverse_perm fiftyDays).symm
      (by decide +kernel) with
    ⟨hshort, -⟩ | ⟨-, bad, hmem, -, -, hno, -⟩ | ⟨-, -, hsame⟩
  · omega
  · simp [hfinite bad hmem] at hno
  · exact hsame

/-- **With a period of the greatest machine word there is no outcome.** The fifty bars are of
different times, all their prices are numbers, and each of the periods is a machine word; but one
bar more than the greatest number there is would be required. -/
theorem overflow_without_outcome :
    let l : Lookbacks := { rsi := wordValues - 1 }
    (l.rsi < wordValues ∧ fiftyDays.Perm fiftyDays.reverse ∧ (fiftyDays.map Bar.time).Nodup ∧
      ∀ bar ∈ fiftyDays, bar.isFinite = true) ∧
      l.compute? "AAPL" fiftyDays = none ∧ l.compute? "AAPL" fiftyDays.reverse = none := by
  intro l
  have hover : ¬ l.SumsFit := fun hfits => absurd hfits.rsi (by decide)
  exact ⟨⟨by decide, (List.reverse_perm fiftyDays).symm, by decide +kernel, by decide +kernel⟩,
    compute?_eq_none_iff.mpr hover, compute?_eq_none_iff.mpr hover⟩

end Lookbacks

end MarketSignals
