import Mathlib.Data.List.FinRange
import MarketSignals.Proofs.Sorting
import MarketSignals.Proofs.Store.Queries

/-!
# The newest signals

What a store shows of the signals of a symbol. Signals may be equal, so the signals that are shown
are told apart by their places among the signals of the symbol: a signal is ahead of another when
it is newer, or as new and added before it, and this order has no ties left. The places that are
shown are ahead of every place that is not, in that order.

## Main results

* `recentSignals_eq_map`: the sort by time is the sort of the places by what is ahead.
* `recentSignals_newest`: after any run the newest signals are shown and none is lost.
-/

namespace MarketSignals

namespace Store

variable {own : List Signal} {limit : Nat}

theorem newestFirst_trans (a b c : Signal) (hab : newestFirst a b) (hbc : newestFirst b c) :
    newestFirst a c :=
  decide_eq_true (Timestamp.le_trans (of_decide_eq_true hbc) (of_decide_eq_true hab))

theorem newestFirst_total (a b : Signal) : newestFirst a b || newestFirst b a := by
  simpa [newestFirst] using Timestamp.le_total b.producedAt a.producedAt

/-! ### Places -/

/-- Whether the signal at a place goes before the one at another: it is newer, or as new and added
before. -/
def Ahead (own : List Signal) (i j : Fin own.length) : Prop :=
  own[j].producedAt < own[i].producedAt ∨ own[i].producedAt = own[j].producedAt ∧ i < j

/-- Places of the newest signals, at most `limit`, the newest first. -/
structure NewestPlaces (own : List Signal) (limit : Nat) (places : List (Fin own.length)) :
    Prop where
  /-- As many as there are, up to the limit. -/
  length_eq : places.length = min limit own.length
  /-- Each goes before the ones after it. -/
  ordered : places.Pairwise (Ahead own)
  /-- Each goes before all that are left out. -/
  ahead : ∀ i ∈ places, ∀ j ∉ places, Ahead own i j

/-- The order of places that the order of their signals makes. -/
def newestPlaceFirst (own : List Signal) (i j : Fin own.length) : Bool :=
  newestFirst (own.get i) (own.get j)

theorem newestPlaceFirst_trans (i j k : Fin own.length) (hij : newestPlaceFirst own i j)
    (hjk : newestPlaceFirst own j k) : newestPlaceFirst own i k :=
  newestFirst_trans _ _ _ hij hjk

theorem newestPlaceFirst_total (i j : Fin own.length) :
    newestPlaceFirst own i j || newestPlaceFirst own j i :=
  newestFirst_total _ _

/-- All places of a log, in the order of their signals from the newest to the oldest. -/
def sortedPlaces (own : List Signal) : List (Fin own.length) :=
  (List.finRange own.length).mergeSort (newestPlaceFirst own)

theorem sortedPlaces_perm (own : List Signal) :
    (sortedPlaces own).Perm (List.finRange own.length) :=
  List.mergeSort_perm _ _

/-- Sorting the signals is sorting their places. -/
theorem map_get_sortedPlaces (own : List Signal) :
    (sortedPlaces own).map own.get = own.mergeSort newestFirst := by
  have hsame : ∀ i ∈ List.finRange own.length, ∀ j ∈ List.finRange own.length,
      newestPlaceFirst own i j = newestFirst (own.get i) (own.get j) := fun i _ j _ => rfl
  rw [sortedPlaces, List.map_mergeSort hsame, List.map_get_finRange]

/-- Each of the sorted places is ahead of those after it. -/
theorem sortedPlaces_ordered (own : List Signal) : (sortedPlaces own).Pairwise (Ahead own) := by
  -- The places come in ascending order, which the sort keeps among places of one time.
  have hstable : (sortedPlaces own).Pairwise fun i j =>
      newestPlaceFirst own i j ∧ (newestPlaceFirst own j i → i < j) :=
    pairwise_mergeSort_of_pairwise newestPlaceFirst_trans newestPlaceFirst_total
      (List.pairwise_lt_finRange own.length)
  refine hstable.imp fun {i j} ⟨hnewer, htied⟩ => ?_
  by_cases hsame : own[i].producedAt = own[j].producedAt
  · exact .inr ⟨hsame, htied (decide_eq_true (hsame ▸ Timestamp.le_refl _))⟩
  · exact .inl (Timestamp.lt_of_le_of_ne (of_decide_eq_true hnewer) (Ne.symm hsame))

/-- The first places of the sorted ones are those of the newest signals. -/
theorem newestPlaces_take (own : List Signal) (limit : Nat) :
    NewestPlaces own limit ((sortedPlaces own).take limit) where
  length_eq := by
    rw [List.length_take, (sortedPlaces_perm own).length_eq, List.length_finRange]
  ordered := (sortedPlaces_ordered own).sublist (List.take_sublist _ _)
  ahead i hi j hj := by
    have hordered := sortedPlaces_ordered own
    rw [← List.take_append_drop limit (sortedPlaces own), List.pairwise_append] at hordered
    have hj' : j ∈ (sortedPlaces own).drop limit := by
      have hall : j ∈ sortedPlaces own := (sortedPlaces_perm own).mem_iff.mpr (List.mem_finRange j)
      rw [← List.take_append_drop limit (sortedPlaces own), List.mem_append] at hall
      exact hall.resolve_left hj
    exact hordered.2.2 i hi j hj'

/-! ### What is shown -/

/-- The newest signals of a symbol are those at the newest places among its own. -/
theorem recentSignals_eq_map (s : Store) (symbol : String) (limit : Nat) :
    s.recentSignals symbol limit =
      ((sortedPlaces (s.signalsOf symbol)).take limit).map (s.signalsOf symbol).get := by
  rw [List.map_take, map_get_sortedPlaces, recentSignals]

/-- No signal that is shown is older than one after it. -/
theorem recentSignals_newest_first (s : Store) (symbol : String) (limit : Nat) :
    (s.recentSignals symbol limit).Pairwise fun a b => b.producedAt ≤ a.producedAt :=
  ((List.pairwise_mergeSort newestFirst_trans newestFirst_total _).sublist
    (List.take_sublist _ _)).imp of_decide_eq_true

/-- A signal of the symbol is shown at most as often as it was added, another one never. -/
theorem count_recentSignals_le (s : Store) (symbol : String) (limit : Nat) (signal : Signal) :
    (s.recentSignals symbol limit).count signal ≤
      if signal.symbol = symbol then s.signals.count signal else 0 := by
  have hown : (s.recentSignals symbol limit).count signal ≤ (s.signalsOf symbol).count signal :=
    ((List.take_sublist _ _).count_le signal).trans_eq ((List.mergeSort_perm _ _).count_eq signal)
  split
  · exact hown.trans (List.filter_sublist.count_le signal)
  · rename_i hforeign
    have hnone : (s.signalsOf symbol).count signal = 0 :=
      List.count_eq_zero.mpr fun hmem => hforeign (of_decide_eq_true (List.mem_filter.mp hmem).2)
    exact hown.trans_eq hnone

/-- **The newest signals of a symbol are shown, the newest first, and none is lost.** After any
run of queries the signals of the run are stored in their order, and what is shown of a symbol with
some limit are the signals at some places among its own: as many as there are, up to the limit,
each ahead of those after it and of all that are left out. -/
theorem recentSignals_newest (queries : List Query) (symbol : String) (limit : Nat) :
    let log := queries.filterMap Query.signal?
    let own := log.filter (·.symbol = symbol)
    let s := ({} : Store).carryOut queries
    let shown := s.ask (.recentSignals symbol limit)
    (∃ places, NewestPlaces own limit places ∧ shown.1 = places.map own.get) ∧
      shown.1.length = min limit own.length ∧
      shown.1.Pairwise (fun a b => b.producedAt ≤ a.producedAt) ∧
      (∀ signal, shown.1.count signal ≤ if signal.symbol = symbol then log.count signal else 0) ∧
      shown.2 = s ∧ s.signals = log := by
  intro log own s shown
  have hlog : s.signals = log := (signals_carryOut {} queries).trans (List.nil_append _)
  have hown : s.signalsOf symbol = own := by rw [signalsOf, hlog]
  have hnewest := newestPlaces_take own limit
  have hshown : shown.1 = ((sortedPlaces own).take limit).map own.get := by
    rw [← hown]
    exact recentSignals_eq_map s symbol limit
  refine ⟨⟨_, hnewest, hshown⟩, ?_, recentSignals_newest_first s symbol limit, fun signal => ?_,
    rfl, hlog⟩
  · rw [hshown, List.length_map, hnewest.length_eq]
  · rw [← hlog]
    exact count_recentSignals_le s symbol limit signal

/-- A signal on a symbol of some market, of a second. -/
def signalAt (symbol market : String) (second : Int) (hsecond : IsPoint second 0) : Signal :=
  ⟨symbol, market, .hold, 0.5, 0.5, [], .rule, ⟨second, 0, hsecond⟩⟩

/-- Of two signals of one time the one that was added first is shown. -/
theorem recentSignals_newest_tied :
    let first := signalAt "AAPL" "NASDAQ" 60 (by decide)
    let second := signalAt "AAPL" "XETRA" 60 (by decide)
    let newer := signalAt "AAPL" "NASDAQ" 61 (by decide)
    let other := signalAt "MSFT" "NASDAQ" 62 (by decide)
    let queries := [first, other, second, newer].map Query.appendSignal
    let shown := (({} : Store).carryOut queries).ask (.recentSignals "AAPL" 2)
    (∃ places, NewestPlaces [first, second, newer] 2 places ∧
      shown.1 = places.map [first, second, newer].get) ∧ shown.1 = [newer, first] := by
  intro first second newer other queries shown
  have hsorted : [first, second, newer].mergeSort newestFirst = [newer, first, second] := by
    have hlater : newestFirst first newer = false := by decide
    have htied : newestFirst first second = true := by decide
    simp [List.mergeSort, List.MergeSort.Internal.splitInTwo, hlater, htied]
  refine ⟨(recentSignals_newest queries "AAPL" 2).1, ?_⟩
  show ([first, second, newer].mergeSort newestFirst).take 2 = [newer, first]
  rw [hsorted]
  rfl

end Store

end MarketSignals
