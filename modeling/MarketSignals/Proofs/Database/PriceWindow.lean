import MarketSignals.Proofs.Database.Cut
import MarketSignals.Proofs.Database.Listing

/-!
# Price windows from the database

For a window of the newest bars twice as many rows are selected, replays are collapsed, and the end
of what is left is the answer. How far that agrees with a store that was given the same bars depends
on how often the bars were written: the rows selected must reach the first write of the time at
which the window starts.

## Main results

* `Ascends.window_iff`: which windows survive the selection.
* `Ascends.reaches`: two writes of each bar are never too many.
* `Database.prices_agree_iff`: where the database and the store give the same answers.
* `Database.replays_cut_window`: a bar that was written four times.
-/

namespace MarketSignals

namespace Database

/-- The number of rows that are selected for a window. -/
def rowLimit (limit : Nat) : Nat :=
  min (limit * 2) maxRows

end Database

/-! ### Where the windows agree -/

/-- Whether the rows that are selected for a window reach far enough back: the first of them that is
from the time the window starts at is the first write of that time, or equals it. As many writes of
that time are cut off as there are more rows from it on than are selected. -/
def Reaches (history : List Bar) (symbol : String) (limit : Nat) : Prop :=
  ∀ first ∈ ((({} : Store).carryOut (history.map .appendPrice)).recentPrices symbol limit).head?,
    (history.filter fun b => b.symbol = symbol && b.time = first.time)[
      (history.countP fun b => b.symbol = symbol && first.time ≤ b.time) -
        Database.rowLimit limit]? = some first

instance (history : List Bar) (symbol : String) (limit : Nat) :
    Decidable (Reaches history symbol limit) :=
  inferInstanceAs (Decidable (∀ first ∈ _, _ = some first))

namespace Ascends

variable {history series : List Bar} {symbol : String}

/-- The bars of a symbol from a time on, counted in the history. -/
theorem countP_eq (h : Ascends history symbol series) (time : Timestamp) :
    history.countP (fun b => b.symbol = symbol && time ≤ b.time) =
      series.countP (time ≤ ·.time) := by
  rw [h.perm.countP_eq, List.countP_filter]
  simp only [Bool.and_comm]

/-- **Which windows survive the selection.** The end of a series makes the window of the store
exactly when it reaches far enough back. -/
theorem window_iff (h : Ascends history symbol series) (limit : Nat) :
    Series.trailing limit (collapseByTime (Series.trailing (Database.rowLimit limit) series)) =
        (({} : Store).carryOut (history.map .appendPrice)).recentPrices symbol limit ↔
      Reaches history symbol limit := by
  rw [Reaches, Store.recentPrices, h.bars_eq_collapseByTime]
  cases hstart : (Series.trailing limit (collapseByTime series)).head? with
  | none =>
      have hempty : min limit (collapseByTime series).length = 0 := by
        rw [← Series.length_trailing, List.length_eq_zero_iff, ← List.head?_eq_none_iff, hstart]
      have hnone : Series.trailing limit
          (collapseByTime (Series.trailing (Database.rowLimit limit) series)) = [] := by
        rcases Nat.min_eq_zero_iff.mp hempty with hlimit | hlength
        · rw [← List.length_eq_zero_iff, Series.length_trailing, hlimit, Nat.zero_min]
        · rw [List.length_eq_zero_iff, collapseByTime_eq_nil_iff] at hlength
          simp [hlength]
      rw [hnone, List.head?_eq_none_iff.mp hstart]
      simp
  | some first =>
      obtain ⟨earlier, same, later, rfl, haround⟩ := exists_around_start h.ordered hstart
      rw [haround.window_cut_iff _ (ordered_collapseByTime h.ordered) hstart]
      simp only [Option.mem_def, Option.some.injEq, forall_eq', h.countP_eq, ← h.replays,
        haround.filter_eq, haround.countP_eq]

/-- No replays beyond a second write of a bar can keep a window from its start. -/
theorem reaches (h : Ascends history symbol series) {limit : Nat}
    (hreplays : ∀ time, (history.filter fun b => b.symbol = symbol && b.time = time).length ≤ 2)
    (hlimit : limit * 2 ≤ Database.maxRows) : Reaches history symbol limit := by
  intro first hstart
  rw [Store.recentPrices, h.bars_eq_collapseByTime, Option.mem_def] at hstart
  obtain ⟨earlier, same, later, rfl, haround⟩ := exists_around_start h.ordered hstart
  obtain ⟨-, hwindow, -⟩ := haround.window_eq (ordered_collapseByTime h.ordered) hstart
  have hfrom : (first :: same ++ later).Sublist (earlier ++ (first :: same ++ later)) :=
    List.sublist_append_right _ _
  -- What the window holds was written at most twice each.
  have hneeded : (first :: same ++ later).length ≤ 2 * limit := by
    have htwice : (first :: same ++ later).length ≤
        2 * (collapseByTime (first :: same ++ later)).length := by
      refine length_le_of_replays (h.ordered.sublist hfrom) fun time => ?_
      refine hfrom.countP_le.trans ?_
      rw [List.countP_eq_length_filter, h.replays]
      exact hreplays time
    rw [haround.collapse_from (fun _ => id)] at htwice
    omega
  rw [← h.replays, h.countP_eq, haround.filter_eq, haround.countP_eq, Database.rowLimit,
    Nat.sub_eq_zero_of_le (by omega), List.getElem?_cons_zero]

end Ascends

namespace Database

variable {now : Timestamp} {history : List Bar} {symbol : String} {listing : List Row}

/-- A list of at most one entry is told by its last entry. -/
theorem eq_iff_getLast?_eq {α : Type} {list other : List α} (h : list.length ≤ 1)
    (h' : other.length ≤ 1) : list.getLast? = other.getLast? ↔ list = other := by
  have htoList : ∀ {l : List α}, l.length ≤ 1 → l.getLast?.toList = l := by
    intro l hl
    match l, hl with
    | [], _ => rfl
    | [a], _ => rfl
  refine ⟨fun he => ?_, congrArg _⟩
  rw [← htoList h, he, htoList h']

/-- What is answered from the rows that are selected of a listing. -/
theorem perform_prices (hstorable : ∀ bar ∈ history, bar.Storable)
    (hlisting : IsListing (priceRows now history) symbol listing) :
    ∃ series, Ascends history symbol series ∧
      (∀ limit,
        (perform true 0 now (listing.take (rowLimit limit)) (.recentPrices symbol limit)).2 =
          .ok (Series.trailing limit
            (collapseByTime (Series.trailing (rowLimit limit) series)))) ∧
      (perform true 0 now (listing.take (rowLimit 1)) (.latestPrice symbol)).2 =
        .ok (Series.trailing 1
          (collapseByTime (Series.trailing (rowLimit 1) series))).getLast? := by
  obtain ⟨series, hseries, rfl⟩ := hlisting.exists_series hstorable
  have hstored : ∀ limit, ∀ bar ∈ series.reverse.take limit, bar.Storable := fun limit bar hbar =>
    hstorable bar (hseries.mem_iff.mp (List.mem_reverse.mp (List.mem_of_mem_take hbar))).1
  refine ⟨series, hseries, fun limit => ?_, ?_⟩
  · rw [perform_eq, ← List.map_take, answerOf_recentPrices (hstored _), Series.reverse_take_reverse]
  · rw [perform_eq, ← List.map_take, answerOf_latestPrice (hstored _), Series.reverse_take_reverse]

/-- **Where the two stores agree.** The database answers the newest bars of a symbol with a window
in the strict order of time that holds bars written for the symbol. This window, and the latest bar,
are those of a store that was given the same appends exactly when the rows selected reach far enough
back; they do where no bar was written more than twice. -/
theorem prices_agree_iff (hstorable : ∀ bar ∈ history, bar.Storable)
    (hlisting : IsListing (priceRows now history) symbol listing) :
    let s := ({} : Store).carryOut (history.map .appendPrice)
    (∀ limit, ∃ window,
      (perform true 0 now (listing.take (rowLimit limit)) (.recentPrices symbol limit)).2 =
          .ok window ∧
        (window = s.recentPrices symbol limit ↔ Reaches history symbol limit) ∧
        window.length ≤ limit ∧ window.Pairwise (·.time < ·.time) ∧
        ∀ bar ∈ window, bar ∈ history ∧ bar.symbol = symbol) ∧
      ((perform true 0 now (listing.take (rowLimit 1)) (.latestPrice symbol)).2 =
        .ok (s.latestPrice symbol) ↔ Reaches history symbol 1) ∧
      ((∀ time, (history.filter fun b => b.symbol = symbol && b.time = time).length ≤ 2) →
        ∀ limit, limit * 2 ≤ maxRows → Reaches history symbol limit) := by
  intro s
  obtain ⟨series, hseries, hrecent, hlatest⟩ := perform_prices hstorable hlisting
  refine ⟨fun limit => ⟨_, hrecent limit, hseries.window_iff limit,
    Series.length_trailing_le _ _, ?_, fun bar hbar => ?_⟩, ?_,
    fun hreplays limit => hseries.reaches hreplays⟩
  · have hend := hseries.ordered.sublist (List.drop_sublist (series.length - rowLimit limit) series)
    exact (ordered_collapseByTime hend).sublist (List.drop_sublist _ _)
  · have hkept := mem_of_mem_collapseByTime (List.mem_of_mem_drop hbar)
    exact hseries.mem_iff.mp (List.mem_of_mem_drop hkept)
  · have hlast : s.latestPrice symbol = (s.recentPrices symbol 1).getLast? :=
      (Series.getLast?_trailing_one _).symm
    rw [hlatest, Except.ok.injEq, ← hseries.window_iff, hlast]
    exact eq_iff_getLast?_eq (Series.length_trailing_le _ _) (Series.length_trailing_le _ _)

/-- A bar, and the bars of a later time that were written after it. -/
def replayed (prices : List Float) : List Bar :=
  flatBar 100 .epoch :: prices.map fun price => flatBar price ⟨60, 0, by decide⟩

/-- Two writes of the later time: the database answers with the window of the store. -/
theorem prices_agree_twice :
    let history := replayed [101, 102]
    let rows := listingOf (priceRows .epoch history) "AAPL"
    (perform true 0 .epoch (rows.take (rowLimit 2)) (.recentPrices "AAPL" 2)).2 =
      .ok (replayed [101]) := by
  intro history rows
  have hstorable : ∀ bar ∈ history, bar.Storable := by decide +kernel
  have hreaches : Reaches history "AAPL" 2 := by decide +kernel
  have hstore : (({} : Store).carryOut (history.map .appendPrice)).recentPrices "AAPL" 2 =
      replayed [101] := by decide +kernel
  obtain ⟨window, hanswer, hagree, -⟩ :=
    (prices_agree_iff hstorable (isListing_listingOf (priceRows .epoch history) "AAPL")).1 2
  rw [hanswer, hagree.mpr hreaches, hstore]

/-- Four writes of the later time: the rows selected for a window of two hold nothing else, so that
the window is short, and those selected for the latest bar do not hold its first write. -/
theorem replays_cut_window :
    let history := replayed [101, 102, 103, 104]
    let rows := listingOf (priceRows .epoch history) "AAPL"
    let s := ({} : Store).carryOut (history.map .appendPrice)
    (∀ bar ∈ history, bar.Storable) ∧ IsListing (priceRows .epoch history) "AAPL" rows ∧
      s.recentPrices "AAPL" 2 = replayed [101] ∧
      (perform true 0 .epoch (rows.take (rowLimit 2)) (.recentPrices "AAPL" 2)).2 =
        .ok [flatBar 101 ⟨60, 0, by decide⟩] ∧
      s.latestPrice "AAPL" = some (flatBar 101 ⟨60, 0, by decide⟩) ∧
      (perform true 0 .epoch (rows.take (rowLimit 1)) (.latestPrice "AAPL")).2 =
        .ok (some (flatBar 103 ⟨60, 0, by decide⟩)) := by
  intro history rows s
  have hrows : rows = (priceRows .epoch history).reverse := by
    have hof : (priceRows .epoch history).filter (Row.isOf "AAPL") = priceRows .epoch history := by
      decide +kernel
    simp only [rows, listingOf, hof]
    rw [List.mergeSort_of_pairwise (by decide +kernel)]
  refine ⟨by decide +kernel, isListing_listingOf _ _, by decide +kernel, ?_, by decide +kernel, ?_⟩
  · rw [hrows]
    decide +kernel
  · rw [hrows]
    decide +kernel

end Database

end MarketSignals
