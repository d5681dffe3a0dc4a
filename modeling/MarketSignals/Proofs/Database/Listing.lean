import MarketSignals.Proofs.Database.Collapse
import MarketSignals.Proofs.Database.Rows
import MarketSignals.Proofs.Sorting
import MarketSignals.Proofs.Store.FirstWrite

/-!
# Listings of prices

The table of prices keeps every write. What the database makes of it for a symbol is taken as given:
the rows of the symbol, the newest first, replays of a time in the reverse order of their insertion.
Read backwards, such a listing is the history of the symbol put in the order of time, and what is
kept of it is the series of a store that was given the same bars.

## Main results

* `Database.isListing_listingOf`: every table has a listing.
* `Database.IsListing.exists_series`: a listing of storable bars is a series, read backwards.
* `Ascends.bars_eq_collapseByTime`: collapsed, the series is that of the store.
-/

namespace MarketSignals

/-! ### What the database is asked to do -/

/-- The microseconds in the first column of a row. -/
def Row.micros : Row → Int
  | .timestamp micros :: _ => micros
  | _ => 0

/-- Whether the second column of a row holds a symbol. -/
def Row.isOf (symbol : String) (row : Row) : Bool :=
  row[1]? = some (.text symbol)

namespace Database

/-- The rows in the table of prices after bars were appended at some time. -/
def priceRows (now : Timestamp) (history : List Bar) : List Row :=
  (history.flatMap fun bar => statements now (.appendPrice bar)).filterMap Statement.params

/-- Whether rows are all rows of a symbol in a table, the newest first and those of one time in the
reverse order of their insertion. -/
structure IsListing (table : List Row) (symbol : String) (listing : List Row) : Prop where
  newest_first : listing.Pairwise fun a b => b.micros ≤ a.micros
  replays : ∀ micros, listing.filter (·.micros = micros) =
    ((table.filter (Row.isOf symbol)).filter (·.micros = micros)).reverse

/-- The rows of a symbol in a table, as a stable sort by time gives them. -/
def listingOf (table : List Row) (symbol : String) : List Row :=
  ((table.filter (Row.isOf symbol)).mergeSort fun a b => a.micros ≤ b.micros).reverse

/-- A stable sort makes a listing of any table. -/
theorem isListing_listingOf (table : List Row) (symbol : String) :
    IsListing table symbol (listingOf table symbol) := by
  have htrans : ∀ a b c : Row, decide (a.micros ≤ b.micros) → decide (b.micros ≤ c.micros) →
      decide (a.micros ≤ c.micros) := by
    simp only [decide_eq_true_iff]
    omega
  have htotal : ∀ a b : Row, decide (a.micros ≤ b.micros) || decide (b.micros ≤ a.micros) := by
    simp only [Bool.or_eq_true, decide_eq_true_iff]
    omega
  refine ⟨?_, fun micros => ?_⟩
  · rw [listingOf, List.pairwise_reverse]
    exact (List.pairwise_mergeSort htrans htotal _).imp of_decide_eq_true
  · rw [listingOf, List.filter_reverse, filter_mergeSort_of_ties htrans htotal]
    simp only [decide_eq_true_iff]
    omega

/-- What is inserted are the columns of the bars. -/
theorem priceRows_eq (now : Timestamp) (history : List Bar) :
    priceRows now history = history.map barColumns := by
  induction history with
  | nil => rfl
  | cons bar rest ih =>
      rw [List.map_cons, ← ih]
      rfl

/-- Where no statement is to be refused, all are carried out. -/
theorem allSucceeded_send_zero (list : List Statement) : allSucceeded (send 0 list) = true := by
  induction list with
  | nil => rfl
  | cons statement rest ih => exact ih

/-- Where nothing is refused, a query is answered from the rows. -/
theorem perform_eq (now : Timestamp) (rows : List Row) (query : Store.Query) :
    (perform true 0 now rows query).2 = answerOf rows query :=
  if_pos (allSucceeded_send_zero _)

end Database

/-! ### The bars behind a listing -/

/-- Whether a series holds the bars of a symbol in a history by time, replays in the order of the
history. -/
structure Ascends (history : List Bar) (symbol : String) (series : List Bar) : Prop where
  ordered : series.Pairwise (·.time ≤ ·.time)
  replays : ∀ time, series.filter (·.time = time) =
    history.filter fun b => b.symbol = symbol && b.time = time

/-- Times of whole microseconds are ordered as their microseconds. -/
theorem Timestamp.le_of_micros_le {a b : Timestamp} (ha : a.InMicros) (hb : b.InMicros)
    (h : a.micros ≤ b.micros) : a ≤ b := by
  have hma := micros_mul ha.2
  have hmb := micros_mul hb.2
  simp only [InMicros, le_def, position, nanos, nanosPerSecond] at *
  omega

namespace Ascends

variable {history series : List Bar} {symbol : String}

/-- The series holds bars of the symbol in the history. -/
theorem mem_iff (h : Ascends history symbol series) {bar : Bar} :
    bar ∈ series ↔ bar ∈ history ∧ bar.symbol = symbol := by
  have hmem : bar ∈ series ↔ bar ∈ series.filter (·.time = bar.time) := by simp
  rw [hmem, h.replays]
  simp

/-- The series holds the bars of the symbol as often as the history. -/
theorem perm (h : Ascends history symbol series) :
    series.Perm (history.filter (·.symbol = symbol)) := by
  rw [List.perm_iff_count]
  intro bar
  have hreplays := h.replays bar.time
  simp only [Bool.and_comm (decide (_ = symbol)), ← List.filter_filter] at hreplays
  calc series.count bar
      = (series.filter (·.time = bar.time)).count bar := (List.count_filter (by simp)).symm
    _ = ((history.filter (·.symbol = symbol)).filter (·.time = bar.time)).count bar := by
        rw [hreplays]
    _ = (history.filter (·.symbol = symbol)).count bar := List.count_filter (by simp)

/-- What the first write of a time is. -/
theorem find?_eq (h : Ascends history symbol series) (time : Timestamp) :
    series.find? (·.time = time) = history.find? fun b => b.symbol = symbol && b.time = time := by
  rw [← List.head?_filter, ← List.head?_filter, h.replays]

/-- Collapsing the series makes the series of the store. -/
theorem bars_eq_collapseByTime (h : Ascends history symbol series) :
    (({} : Store).carryOut (history.map .appendPrice)).bars symbol = collapseByTime series := by
  refine (PriceMap.lists_carryOut _ symbol).unique
    ⟨ordered_collapseByTime h.ordered, fun bar hbar => ?_, fun time bar => ?_⟩
  · exact (h.mem_iff.mp (mem_of_mem_collapseByTime hbar)).2
  · rw [PriceMap.after, PriceMap.foldl_appends, PriceMap.empty, Option.none_or,
      mem_collapseByTime_iff h.ordered, ← h.find?_eq time]
    constructor
    · intro hfind
      have htime : bar.time = time := by simpa using List.find?_some hfind
      exact ⟨htime ▸ hfind, htime⟩
    · rintro ⟨hfind, rfl⟩
      exact hfind

end Ascends

namespace Database

/-- Storable bars are told apart by their columns. -/
theorem map_barColumns_inj {bars others : List Bar} (h : ∀ bar ∈ bars, bar.Storable)
    (h' : ∀ bar ∈ others, bar.Storable) (he : bars.map barColumns = others.map barColumns) :
    bars = others := by
  have hread := mapM_bar_barColumns h
  rw [he, mapM_bar_barColumns h'] at hread
  exact (Except.ok.inj hread).symm

/-- A listing of storable bars is a series, read backwards. -/
theorem IsListing.exists_series {now : Timestamp} {history : List Bar} {symbol : String}
    {listing : List Row} (h : IsListing (priceRows now history) symbol listing)
    (hstorable : ∀ bar ∈ history, bar.Storable) :
    ∃ series, Ascends history symbol series ∧ listing = series.reverse.map barColumns := by
  have hreplays := h.replays
  rw [priceRows_eq] at hreplays
  obtain ⟨bars, rfl, hbars⟩ : ∃ bars : List Bar, listing = bars.map barColumns ∧
      ∀ bar ∈ bars, bar ∈ history := by
    refine exists_written fun row hrow => ?_
    have hmem : row ∈ listing.filter (·.micros = row.micros) := by simpa using hrow
    rw [hreplays, List.mem_reverse] at hmem
    exact List.mem_of_mem_filter (List.mem_of_mem_filter hmem)
  have hisOf : Row.isOf symbol ∘ barColumns = fun bar => decide (bar.symbol = symbol) := by
    funext bar
    simp [Row.isOf, barColumns]
  have hof : ∀ micros, bars.filter (·.time.micros = micros) =
      ((history.filter (·.symbol = symbol)).filter (·.time.micros = micros)).reverse := by
    intro micros
    refine map_barColumns_inj (fun b hb => hstorable b (hbars b (List.mem_of_mem_filter hb)))
      (fun b hb => ?_) ?_
    · rw [List.mem_reverse] at hb
      exact hstorable b (List.mem_of_mem_filter (List.mem_of_mem_filter hb))
    · have := hreplays micros
      simp only [List.filter_map, List.map_reverse] at this ⊢
      rw [hisOf] at this
      exact this
  refine ⟨bars.reverse, ⟨?_, fun time => ?_⟩, by rw [List.reverse_reverse]⟩
  · rw [List.pairwise_reverse]
    have hord := List.pairwise_map.mp h.newest_first
    refine hord.imp_of_mem fun ha hb hle => ?_
    exact Timestamp.le_of_micros_le (hstorable _ (hbars _ hb)).time (hstorable _ (hbars _ ha)).time hle
  · have hnarrow : ∀ list : List Bar, list.filter (·.time = time) =
        (list.filter (·.time.micros = time.micros)).filter (·.time = time) := by
      intro list
      rw [List.filter_filter]
      refine List.filter_congr fun bar _ => ?_
      by_cases htime : bar.time = time <;> simp [htime]
    calc bars.reverse.filter (·.time = time)
        = ((bars.filter (·.time.micros = time.micros)).filter (·.time = time)).reverse := by
          rw [List.filter_reverse, hnarrow]
      _ = (history.filter (·.symbol = symbol)).filter (·.time = time) := by
          rw [hof, List.filter_reverse, List.reverse_reverse, ← hnarrow]
      _ = history.filter fun bar => bar.symbol = symbol && bar.time = time := by
          simp only [List.filter_filter, Bool.and_comm]

end Database

end MarketSignals
