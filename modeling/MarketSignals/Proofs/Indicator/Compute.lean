import MarketSignals.Indicator.Compute

/-!
# Snapshots of a series

What the computation of a snapshot comes to: too few bars are refused by their number, a bar with a
price that is no number is refused by its symbol and time, and every other series has a snapshot of
all its bars in the order of time.

## Main results

* `sortByTime_of_ordered`: a series in the order of time is computed as it is.
* `Lookbacks.compute_of_short`, `Lookbacks.compute_of_nonFinite`, `Lookbacks.compute_of_finite`: the
  three ways a computation ends, and `Lookbacks.compute_of_sorted` for a series in the order of time.
* `Lookbacks.compute_eq_ok`: what is known of a series that has a snapshot.
* `Lookbacks.compute?_of_sumsFit`, `Lookbacks.compute?_eq_none_iff`: with periods whose sums are no
  machine words a computation has no outcome, and with all others it has the one of `compute`.
-/

namespace MarketSignals

/-! ### The order of time -/

/-- A series in the order of time stays as it is. -/
theorem sortByTime_of_ordered {bars : List Bar} (h : bars.Pairwise (·.time ≤ ·.time)) :
    sortByTime bars = bars :=
  List.mergeSort_of_pairwise (h.imp fun hle => decide_eq_true hle)

theorem length_sortByTime (bars : List Bar) : (sortByTime bars).length = bars.length :=
  List.length_mergeSort bars

namespace Lookbacks

variable {l : Lookbacks} {symbol : String} {bars : List Bar}

/-- Some bars are always asked for. -/
theorem requiredBars_pos (l : Lookbacks) : 0 < l.requiredBars := by
  simp only [requiredBars, List.foldl_cons, List.foldl_nil, minBars]
  omega

/-! ### Ways a computation ends -/

/-- Too few bars are refused by their number. -/
theorem compute_of_short (h : bars.length < l.requiredBars) :
    l.compute symbol bars = .error (.insufficientData l.requiredBars bars.length) :=
  if_pos h

/-- A price that is no number is refused by the symbol and the time of its bar. -/
theorem compute_of_nonFinite (symbol : String) (h : l.requiredBars ≤ bars.length)
    (hbad : ∃ bar ∈ bars, bar.isFinite = false) : ∃ bar ∈ bars, bar.isFinite = false ∧
      l.compute symbol bars = .error (.nonFinitePrice bar.symbol bar.time) := by
  obtain ⟨bad, hmem, hbad⟩ := hbad
  cases hfind : bars.find? fun bar => !bar.isFinite with
  | none =>
      have hfinite := List.find?_eq_none.mp hfind bad hmem
      simp [hbad] at hfinite
  | some bar =>
      refine ⟨bar, List.mem_of_find?_eq_some hfind, ?_, ?_⟩
      · simpa using List.find?_some hfind
      · rw [compute, if_neg (Nat.not_lt.mpr h), hfind]

/-- Every other series has a snapshot of all its bars in the order of time. -/
theorem compute_of_finite (symbol : String) (h : l.requiredBars ≤ bars.length)
    (hfinite : ∀ bar ∈ bars, bar.isFinite = true) :
    ∃ newest, (sortByTime bars).getLast? = some newest ∧
      l.compute symbol bars =
        .ok ⟨symbol, l.readings (sortByTime bars), bars.length, newest.time⟩ := by
  have hfind : (bars.find? fun bar => !bar.isFinite) = none :=
    List.find?_eq_none.mpr fun bar hbar => by simp [hfinite bar hbar]
  have hsome : sortByTime bars ≠ [] := by
    rw [← List.length_pos_iff, length_sortByTime]
    exact Nat.lt_of_lt_of_le l.requiredBars_pos h
  refine ⟨(sortByTime bars).getLast hsome, List.getLast?_eq_some_getLast hsome, ?_⟩
  rw [compute, if_neg (Nat.not_lt.mpr h), hfind]
  simp only [List.getLast?_eq_some_getLast hsome, length_sortByTime]

/-- A series in the order of time has its snapshot as it is. -/
theorem compute_of_sorted (symbol : String) (h : l.requiredBars ≤ bars.length)
    (hfinite : ∀ bar ∈ bars, bar.isFinite = true) (hordered : bars.Pairwise (·.time ≤ ·.time)) :
    ∃ newest, bars.getLast? = some newest ∧
      l.compute symbol bars = .ok ⟨symbol, l.readings bars, bars.length, newest.time⟩ := by
  have hcompute := compute_of_finite symbol h hfinite
  rwa [sortByTime_of_ordered hordered] at hcompute

/-- A series with a snapshot has enough bars, with prices that are numbers, and its newest bar gives
the snapshot its time. -/
theorem compute_eq_ok {snapshot : Snapshot} (h : l.compute symbol bars = .ok snapshot) :
    l.requiredBars ≤ bars.length ∧ (∀ bar ∈ bars, bar.isFinite = true) ∧
      ∃ newest, (sortByTime bars).getLast? = some newest ∧
        snapshot = ⟨symbol, l.readings (sortByTime bars), bars.length, newest.time⟩ := by
  rcases Nat.lt_or_ge bars.length l.requiredBars with hshort | henough
  · rw [compute_of_short hshort] at h
    cases h
  by_cases hbad : ∃ bar ∈ bars, bar.isFinite = false
  · obtain ⟨bad, -, -, hcompute⟩ := compute_of_nonFinite symbol henough hbad
    rw [hcompute] at h
    cases h
  · have hfinite : ∀ bar ∈ bars, bar.isFinite = true := fun bar hbar => by
      simpa using fun hno => hbad ⟨bar, hbar, hno⟩
    obtain ⟨newest, hnewest, hcompute⟩ := compute_of_finite symbol henough hfinite
    rw [hcompute] at h
    exact ⟨henough, hfinite, newest, hnewest, (Except.ok.inj h).symm⟩

/-! ### Sums of periods -/

/-- The sums that are taken of the periods are machine words. -/
structure SumsFit (l : Lookbacks) : Prop where
  rsi : l.rsi + 1 < wordValues
  stochastic : l.stochasticK + l.stochasticD < wordValues
  atr : l.atr + 1 < wordValues

theorem wordSum?_eq_some_iff {a b sum : Nat} :
    wordSum? a b = some sum ↔ a + b < wordValues ∧ a + b = sum := by
  rw [wordSum?, Option.ite_none_right_eq_some, Option.some.injEq]

/-- Where the sums are machine words, as many bars are required as without bounds. -/
theorem requiredBars?_of_sumsFit (h : l.SumsFit) : l.requiredBars? = some l.requiredBars := by
  rw [requiredBars?, wordSum?_eq_some_iff.mpr ⟨h.rsi, rfl⟩,
    wordSum?_eq_some_iff.mpr ⟨h.stochastic, rfl⟩, wordSum?_eq_some_iff.mpr ⟨h.atr, rfl⟩]
  rfl

/-- Elsewhere there is no such number. -/
theorem requiredBars?_eq_none_iff : l.requiredBars? = none ↔ ¬ l.SumsFit := by
  refine ⟨fun hnone hfits => ?_, fun hnot => ?_⟩
  · rw [requiredBars?_of_sumsFit hfits] at hnone
    cases hnone
  · cases hsome : l.requiredBars? with
    | none => rfl
    | some required =>
        simp only [requiredBars?, Option.bind_eq_bind, Option.bind_eq_some_iff,
          wordSum?_eq_some_iff] at hsome
        obtain ⟨_, ⟨hrsi, -⟩, _, ⟨hstochastic, -⟩, _, ⟨hatr, -⟩, -⟩ := hsome
        exact absurd ⟨hrsi, hstochastic, hatr⟩ hnot

theorem compute?_of_sumsFit (h : l.SumsFit) (symbol : String) (bars : List Bar) :
    l.compute? symbol bars = some (l.compute symbol bars) := by
  rw [compute?, requiredBars?_of_sumsFit h, Option.map_some]

theorem compute?_eq_none_iff : l.compute? symbol bars = none ↔ ¬ l.SumsFit := by
  rw [compute?, Option.map_eq_none_iff, requiredBars?_eq_none_iff]

end Lookbacks

end MarketSignals
