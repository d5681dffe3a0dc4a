import MarketSignals.Proofs.Database.Listing
import MarketSignals.Proofs.Indicator.AnyOrder
import MarketSignals.Proofs.Store.Bisection

/-!
# Replays dropped on arrival

A store drops a replay when it arrives: it searches the series for the time of the bar and inserts
the bar only where it finds none. The database keeps every bar and drops replays when it is read: it
sorts by time and passes over each bar of the same time as the one before. The two come to the same
series, in whatever order the bars arrived and however often a time was repeated, because each keeps
for every time the bar that came first. For the sort that needs more than an order: bars of one time
have to stay in the order they came in.

## Main results

* `HoldsFirsts`, `holdsFirsts_collapseByTime`: what is kept of an ordered series.
* `foldl_insertAt_search`: insertions where a search says are those of the store.
* `appends_eq_collapseByTime`: replays dropped on arrival and replays dropped on reading.
-/

namespace MarketSignals

/-! ### What is kept -/

/-- Whether of a series the first bar of each time is kept and nothing else. -/
structure HoldsFirsts (series kept : List Bar) : Prop where
  ordered : kept.Pairwise (·.time < ·.time)
  sublist : kept.Sublist series
  times : ∀ time, (∃ b ∈ kept, b.time = time) ↔ ∃ b ∈ series, b.time = time
  first : ∀ time, kept.find? (·.time = time) = series.find? (·.time = time)

/-- There is a bar of a time where the first one of it is found. -/
theorem exists_time_iff_find? (series : List Bar) (time : Timestamp) :
    (∃ b ∈ series, b.time = time) ↔ (series.find? (·.time = time)).isSome := by
  simp

/-- Collapsing keeps the first bar of each time. -/
theorem holdsFirsts_collapseByTime {series : List Bar} (h : series.Pairwise (·.time ≤ ·.time)) :
    HoldsFirsts series (collapseByTime series) where
  ordered := ordered_collapseByTime h
  sublist := sublist_collapseByTime series
  times time := by
    rw [exists_time_iff_find?, exists_time_iff_find?, find?_collapseByTime]
  first := find?_collapseByTime series

/-- What is collapsed once is collapsed. -/
theorem collapseByTime_collapseByTime {series : List Bar} (h : series.Pairwise (·.time ≤ ·.time)) :
    collapseByTime (collapseByTime series) = collapseByTime series :=
  collapseByTime_of_ordered (ordered_collapseByTime h)

/-! ### Arrival one by one -/

/-- Insertions where a search says keep the series of a store. -/
theorem foldl_insertAt_search {series : List Bar} (bars : List Bar)
    (hordered : series.Pairwise (·.time < ·.time)) :
    bars.foldl (fun series bar => insertAt bar series (search series bar.time)) series =
      bars.foldl (fun series bar => insertBar bar series) series := by
  induction bars generalizing series with
  | nil => rfl
  | cons bar rest ih =>
      have hplace := isPlace_search hordered bar.time
      rw [List.foldl_cons, List.foldl_cons, ← insertBar_eq_insertAt hordered hplace]
      exact ih (ordered_insertBar hordered)

/-! ### Sorting afterwards -/

/-- A history sorted by time keeps replays in the order they came in. -/
theorem ascends_sortByTime (history : List Bar) (symbol : String) :
    Ascends history symbol (sortByTime (history.filter (·.symbol = symbol))) where
  ordered := ordered_sortByTime _
  replays time := by
    rw [sortByTime, filter_mergeSort_of_ties Bar.noLaterThan_trans Bar.noLaterThan_total,
      List.filter_filter]
    · simp only [Bool.and_comm]
    · intro a b ha hb
      have hsame : a.time = b.time := (of_decide_eq_true ha).trans (of_decide_eq_true hb).symm
      exact decide_eq_true (hsame ▸ Timestamp.le_refl _)

/-- Appended to an empty store, a history leaves for each symbol what sorting and collapsing make of
the bars of the symbol. -/
theorem bars_eq_collapse_sortByTime (history : List Bar) (symbol : String) :
    (({} : Store).carryOut (history.map .appendPrice)).bars symbol =
      collapseByTime (sortByTime (history.filter (·.symbol = symbol))) :=
  (ascends_sortByTime history symbol).bars_eq_collapseByTime

/-- **Dropping replays on reading is dropping them on arrival.** Bars of one symbol that are appended
to an empty store leave the series that collapsing makes of the bars sorted by time, and no other
series; insertions at the places that a search by halving finds leave the same one. Of any series
ordered by time collapsing keeps the first bar of each time, and nothing is lost to a second
collapsing. -/
theorem appends_eq_collapseByTime {symbol : String} {bars : List Bar}
    (hbars : ∀ bar ∈ bars, bar.symbol = symbol) :
    (({} : Store).carryOut (bars.map .appendPrice)).bars symbol =
        collapseByTime (sortByTime bars) ∧
      (∀ other, other ≠ symbol →
        (({} : Store).carryOut (bars.map .appendPrice)).bars other = []) ∧
      bars.foldl (fun series bar => insertAt bar series (search series bar.time)) [] =
        collapseByTime (sortByTime bars) ∧
      ∀ series : List Bar, series.Pairwise (·.time ≤ ·.time) →
        HoldsFirsts series (collapseByTime series) ∧
          collapseByTime (collapseByTime series) = collapseByTime series := by
  have hall : bars.filter (·.symbol = symbol) = bars :=
    List.filter_eq_self.mpr fun bar hbar => decide_eq_true (hbars bar hbar)
  have hstore := bars_eq_collapse_sortByTime bars symbol
  rw [hall] at hstore
  refine ⟨hstore, fun other hother => ?_, ?_, fun series hordered => ?_⟩
  · have hnone : bars.filter (·.symbol = other) = [] :=
      List.filter_eq_nil_iff.mpr fun bar hbar => by simp [hbars bar hbar, hother.symm]
    rw [bars_eq_collapse_sortByTime, hnone, sortByTime, List.mergeSort_nil, collapseByTime_nil]
  · rw [foldl_insertAt_search bars List.Pairwise.nil, ← hstore, Store.bars_appends _ hbars]
    rfl
  · exact ⟨holdsFirsts_collapseByTime hordered, collapseByTime_collapseByTime hordered⟩

/-- Two times arrive in reverse and then both again: the first two bars are kept, put in order. -/
theorem appends_eq_collapseByTime_reversed :
    let early : Timestamp := ⟨60, 0, by decide⟩
    let late : Timestamp := ⟨120, 0, by decide⟩
    let bars := [flatBar 1 late, flatBar 2 early, flatBar 3 late, flatBar 4 early]
    (∀ bar ∈ bars, bar.symbol = "AAPL") ∧
      collapseByTime (sortByTime bars) = [flatBar 2 early, flatBar 1 late] := by
  intro early late bars
  have hbars : ∀ bar ∈ bars, bar.symbol = "AAPL" := by decide +kernel
  refine ⟨hbars, ?_⟩
  rw [← (appends_eq_collapseByTime hbars).1]
  decide +kernel

end MarketSignals
