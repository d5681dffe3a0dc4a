import MarketSignals.Proofs.Store.Queries
import Mathlib.Data.ENat.Lattice
import Mathlib.Data.Set.Card

/-!
# The first write of a price stays

The prices of a store, abstracted to a map from symbol and time to bar: an append holds where the
map has nothing yet, a prune drops what is from before its cutoff, and no other query matters. A
store that starts empty keeps, for every symbol, the ascending listing of what the map holds.

## Main results

* `PriceMap.Lists.unique`, `PriceMap.Newest.unique`: a map has one listing and one window.
* `PriceMap.lists_carryOut`: after any queries the series of a symbol is the listing of the map.
* `PriceMap.after_eq_of_reordered`: appends of different keys may change places.
* `carryOut_first_write`: windows, latest prices and counts of a store are those of the map.
-/

namespace MarketSignals

/-! ### Series in the strict order of time -/

/-- No time occurs twice. -/
theorem nodup_times {bars : List Bar} (h : bars.Pairwise (·.time < ·.time)) :
    (bars.map (·.time)).Nodup :=
  List.pairwise_map.mpr (h.imp Timestamp.ne_of_lt)

/-- The bars determine the series. -/
theorem eq_of_ordered {bars others : List Bar} (h : bars.Pairwise (·.time < ·.time))
    (h' : others.Pairwise (·.time < ·.time)) (hmem : ∀ bar, bar ∈ bars ↔ bar ∈ others) :
    bars = others := by
  refine List.Perm.eq_of_pairwise (fun a b _ _ hab hba => ?_) h h'
    ((List.perm_ext_iff_of_nodup (nodup_times h).of_map (nodup_times h').of_map).mpr hmem)
  exact absurd hba (Timestamp.lt_asymm hab)

/-! ### The map -/

/-- Bars by symbol and time. -/
abbrev PriceMap :=
  String → Timestamp → Option Bar

namespace PriceMap

/-- The map that holds nothing. -/
def empty : PriceMap := fun _ _ => none

/-- The map with a bar, where it holds none of that symbol and time. -/
def insertNew (m : PriceMap) (bar : Bar) : PriceMap := fun symbol time =>
  if symbol = bar.symbol ∧ time = bar.time ∧ m symbol time = none then some bar else m symbol time

/-- The map without what is from before a time. -/
def dropBefore (m : PriceMap) (cutoff : Timestamp) : PriceMap := fun symbol time =>
  if time < cutoff then none else m symbol time

/-- The map after a query. -/
def apply (m : PriceMap) : Store.Query → PriceMap
  | .appendPrice bar => m.insertNew bar
  | .prune cutoff => m.dropBefore cutoff
  | _ => m

/-- The map after queries, the first one put to the empty map. -/
def after (queries : List Store.Query) : PriceMap :=
  queries.foldl apply empty

/-- How many times the map holds a bar of a symbol for. -/
noncomputable def count (m : PriceMap) (symbol : String) : ENat :=
  {time | (m symbol time).isSome}.encard

/-! ### Listings -/

/-- The bars that a map holds for a symbol, the oldest first. -/
structure Lists (m : PriceMap) (symbol : String) (bars : List Bar) : Prop where
  ordered : bars.Pairwise (·.time < ·.time)
  symbol_eq : ∀ bar ∈ bars, bar.symbol = symbol
  holds_iff : ∀ time bar, m symbol time = some bar ↔ bar ∈ bars ∧ bar.time = time

namespace Lists

variable {m : PriceMap} {symbol : String} {bars others : List Bar}

/-- A bar is listed exactly when it is held for its time. -/
theorem holds_iff_mem (h : m.Lists symbol bars) {bar : Bar} :
    m symbol bar.time = some bar ↔ bar ∈ bars := by
  simp [h.holds_iff]

/-- A map has one listing. -/
theorem unique (h : m.Lists symbol bars) (h' : m.Lists symbol others) : bars = others := by
  refine eq_of_ordered h.ordered h'.ordered fun bar => ?_
  rw [← h.holds_iff_mem, ← h'.holds_iff_mem]

/-- Nothing is held for a time exactly when no bar of the listing is from then. -/
theorem eq_none_iff (h : m.Lists symbol bars) {time : Timestamp} :
    m symbol time = none ↔ ∀ bar ∈ bars, bar.time ≠ time := by
  rw [Option.eq_none_iff_forall_ne_some]
  exact ⟨fun hnone bar hbar htime => hnone bar ((h.holds_iff _ _).mpr ⟨hbar, htime⟩),
    fun hnew bar hsome => hnew bar ((h.holds_iff _ _).mp hsome).1 ((h.holds_iff _ _).mp hsome).2⟩

/-- A listing has as many bars as there are times with one. -/
theorem count_eq (h : m.Lists symbol bars) : m.count symbol = bars.length := by
  have hset : {time | (m symbol time).isSome} = ((bars.map (·.time)).toFinset : Set Timestamp) := by
    ext time
    simp only [Set.mem_ofPred_eq, Option.isSome_iff_exists, h.holds_iff, List.coe_toFinset,
      List.mem_map]
  rw [count, hset, Set.encard_coe_eq_coe_finsetCard, List.toFinset_card_of_nodup (nodup_times h.ordered),
    List.length_map]

end Lists

/-! ### Windows and latest bars -/

/-- The newest bars that a map holds for a symbol, as many as `limit` where there are as many, the
oldest first. -/
structure Newest (m : PriceMap) (symbol : String) (limit : Nat) (window : List Bar) : Prop where
  ordered : window.Pairwise (·.time < ·.time)
  holds : ∀ bar ∈ window, m symbol bar.time = some bar
  length_eq : (window.length : ENat) = min (limit : ENat) (m.count symbol)
  older : ∀ time bar, m symbol time = some bar → bar ∉ window → ∀ b ∈ window, time < b.time

/-- The newest bar that a map holds for a symbol. -/
def IsLatest (m : PriceMap) (symbol : String) (bar : Bar) : Prop :=
  m symbol bar.time = some bar ∧ ∀ time, (m symbol time).isSome → time ≤ bar.time

/-- The end of a listing is its newest window. -/
theorem Lists.newest_trailing {m : PriceMap} {symbol : String} {bars : List Bar}
    (h : m.Lists symbol bars) (limit : Nat) :
    m.Newest symbol limit (Series.trailing limit bars) where
  ordered := h.ordered.sublist (List.drop_sublist _ _)
  holds bar hbar := h.holds_iff_mem.mpr (List.mem_of_mem_drop hbar)
  length_eq := by
    rw [Series.length_trailing, h.count_eq]
    exact Nat.mono_cast.map_min
  older time bar hsome homitted b hb := by
    obtain ⟨hbar, rfl⟩ := (h.holds_iff time bar).mp hsome
    have hsplit : bars.take (bars.length - limit) ++ Series.trailing limit bars = bars :=
      List.take_append_drop _ _
    have hord := h.ordered
    rw [← hsplit, List.mem_append] at hbar
    rw [← hsplit, List.pairwise_append] at hord
    exact hord.2.2 bar (hbar.resolve_right homitted) b hb

/-- A window holds what another one of the same limit holds. -/
theorem Newest.subset {m : PriceMap} {symbol : String} {limit : Nat} {window other : List Bar}
    (h : m.Newest symbol limit window) (h' : m.Newest symbol limit other) : window ⊆ other := by
  intro b hb
  by_contra hb'
  have hlength : window.length = other.length := by
    exact_mod_cast h.length_eq.trans h'.length_eq.symm
  -- The other window is as long, so that it holds a bar which is missing here.
  obtain ⟨c, hc', hc⟩ : ∃ c ∈ other, c ∉ window := by
    by_contra hsub
    have hsub : other ⊆ window := fun c hc => by_contra fun hn => hsub ⟨c, hc, hn⟩
    have hperm := ((nodup_times h'.ordered).of_map.subperm hsub).perm_of_length_le hlength.le
    exact hb' (hperm.mem_iff.mpr hb)
  have hbc := h'.older b.time b (h.holds b hb) hb' c hc'
  have hcb := h.older c.time c (h'.holds c hc') hc b hb
  exact Timestamp.lt_asymm hbc hcb

/-- A map has one newest window of a limit. -/
theorem Newest.unique {m : PriceMap} {symbol : String} {limit : Nat} {window other : List Bar}
    (h : m.Newest symbol limit window) (h' : m.Newest symbol limit other) : window = other :=
  eq_of_ordered h.ordered h'.ordered fun _ => ⟨fun hb => h.subset h' hb, fun hb => h'.subset h hb⟩

/-- The last bar of a listing is the latest bar. -/
theorem Lists.getLast?_eq_some_iff {m : PriceMap} {symbol : String} {bars : List Bar}
    (h : m.Lists symbol bars) {bar : Bar} : bars.getLast? = some bar ↔ m.IsLatest symbol bar := by
  have hlast : ∀ last, bars.getLast? = some last → m.IsLatest symbol last := by
    intro last hsome
    obtain ⟨front, hfront⟩ := List.getLast?_eq_some_iff.mp hsome
    have hord := h.ordered
    rw [hfront, List.pairwise_append] at hord
    refine ⟨h.holds_iff_mem.mpr (by simp [hfront]), fun time hheld => ?_⟩
    obtain ⟨b, hb⟩ := Option.isSome_iff_exists.mp hheld
    obtain ⟨hmem, rfl⟩ := (h.holds_iff time b).mp hb
    rw [hfront, List.mem_append, List.mem_singleton] at hmem
    rcases hmem with hmem | rfl
    · exact Timestamp.le_of_lt (hord.2.2 b hmem last (by simp))
    · exact Timestamp.le_refl _
  refine ⟨hlast bar, fun ⟨hheld, hmax⟩ => ?_⟩
  cases hsome : bars.getLast? with
  | none =>
      rw [List.getLast?_eq_none_iff] at hsome
      exact absurd (h.holds_iff_mem.mp hheld) (by simp [hsome])
  | some last =>
      obtain ⟨hheld', hmax'⟩ := hlast last hsome
      have hle := hmax last.time (by simp [hheld'])
      have hge := hmax' bar.time (by simp [hheld])
      rw [Timestamp.le_antisymm hle hge, hheld] at hheld'
      exact hheld'.symm

/-! ### Runs -/

/-- What one query does to a listing, by what it does to the map. -/
theorem lists_ask {m : PriceMap} {s : Store} {symbol : String} (h : m.Lists symbol (s.bars symbol))
    (query : Store.Query) : (m.apply query).Lists symbol ((s.ask query).2.bars symbol) := by
  cases query with
  | appendPrice bar =>
      show (m.insertNew bar).Lists symbol ((s.appendPrice bar).bars symbol)
      rw [Store.bars_appendPrice]
      split
      · rename_i hsame
        subst hsame
        refine ⟨ordered_insertBar h.ordered, fun b hb => ?_, fun time b => ?_⟩
        · rcases mem_of_mem_insertBar hb with rfl | hb
          · rfl
          · exact h.symbol_eq b hb
        · rw [mem_insertBar_iff_of_ordered h.ordered, ← h.eq_none_iff, insertNew]
          have := h.holds_iff time b
          split <;> grind
      · rename_i hother
        refine ⟨h.ordered, h.symbol_eq, fun time b => ?_⟩
        rw [insertNew, if_neg (fun hc => hother hc.1.symm), h.holds_iff]
  | prune cutoff =>
      show (m.dropBefore cutoff).Lists symbol ((s.prune cutoff).bars symbol)
      rw [Store.bars_prune]
      refine ⟨h.ordered.filter _, fun b hb => h.symbol_eq b (List.mem_of_mem_filter hb), ?_⟩
      intro time b
      rw [dropBefore, List.mem_filter, decide_eq_true_iff]
      split
      · rename_i hold
        exact ⟨nofun, fun ⟨⟨_, hkept⟩, htime⟩ =>
          absurd hold (Timestamp.not_lt.mpr (htime ▸ hkept))⟩
      · rename_i hkept
        rw [h.holds_iff]
        exact ⟨fun ⟨hb, htime⟩ => ⟨⟨hb, htime ▸ Timestamp.not_lt.mp hkept⟩, htime⟩,
          fun ⟨⟨hb, _⟩, htime⟩ => ⟨hb, htime⟩⟩
  | _ => exact h

/-- Listings are kept through queries. -/
theorem lists_foldl {m : PriceMap} {s : Store} {symbol : String}
    (h : m.Lists symbol (s.bars symbol)) (queries : List Store.Query) :
    (queries.foldl apply m).Lists symbol ((s.carryOut queries).bars symbol) := by
  induction queries generalizing m s with
  | nil => exact h
  | cons query rest ih => exact ih (lists_ask h query)

/-- The empty store lists the empty map. -/
theorem lists_empty (symbol : String) : empty.Lists symbol (({} : Store).bars symbol) := by
  rw [Store.bars_empty]
  exact ⟨List.Pairwise.nil, by simp, by simp [empty]⟩

/-- After any queries the series of a symbol is the listing of the map. -/
theorem lists_carryOut (queries : List Store.Query) (symbol : String) :
    (after queries).Lists symbol ((({} : Store).carryOut queries).bars symbol) :=
  lists_foldl (lists_empty symbol) queries

/-- Of bars that are appended, the first one of a key is held. -/
theorem foldl_appends (m : PriceMap) (bars : List Bar) (symbol : String) (time : Timestamp) :
    (bars.map .appendPrice).foldl apply m symbol time =
      (m symbol time).or (bars.find? fun b => b.symbol = symbol && b.time = time) := by
  induction bars generalizing m with
  | nil => simp
  | cons bar rest ih =>
      rw [List.map_cons, List.foldl_cons, ih, List.find?_cons]
      simp only [apply, insertNew]
      cases hheld : m symbol time with
      | some b => simp
      | none => by_cases hkey : bar.symbol = symbol ∧ bar.time = time <;> grind

end PriceMap

/-! ### The order of appends -/

/-- Whether a query can change what is held for a symbol and a time. -/
def Store.Query.touches (symbol : String) (time : Timestamp) : Store.Query → Bool
  | .appendPrice bar => bar.symbol = symbol && bar.time = time
  | .prune cutoff => time < cutoff
  | _ => false

/-- Whether two runs differ only in the order of queries that touch different keys: for every symbol
and time, the queries that touch them are the same in the same order. -/
def Reordered (queries others : List Store.Query) : Prop :=
  ∀ symbol time, queries.filter (·.touches symbol time) = others.filter (·.touches symbol time)

/-- Appends of pairwise different keys may be put in any order, wherever in a run they stand. -/
theorem reordered_of_perm {bars others : List Bar} (hperm : bars.Perm others)
    (hkeys : bars.Pairwise fun a b => (a.symbol, a.time) ≠ (b.symbol, b.time))
    (front back : List Store.Query) :
    Reordered (front ++ bars.map .appendPrice ++ back)
      (front ++ others.map .appendPrice ++ back) := by
  intro symbol time
  simp only [List.filter_append, List.filter_map]
  congr 3
  -- At most one bar of either list has the key, so that the permutation moves nothing.
  let ofKey : Bar → Bool := fun bar => bar.symbol = symbol && bar.time = time
  have hone : ∀ {l : List Bar}, l.Pairwise (fun a b => (a.symbol, a.time) ≠ (b.symbol, b.time)) →
      (l.filter ofKey).Pairwise fun _ _ => False := by
    intro l hl
    refine (hl.filter ofKey).imp_of_mem fun ha hb hne => hne ?_
    simp only [ofKey, List.mem_filter, Bool.and_eq_true, decide_eq_true_iff] at ha hb
    rw [ha.2.1, ha.2.2, hb.2.1, hb.2.2]
  exact List.Perm.eq_of_pairwise (fun _ _ _ _ h _ => h.elim) (hone hkeys)
    (hone (hperm.pairwise hkeys fun h => h.symm)) (hperm.filter ofKey)

namespace PriceMap

/-- A query acts on what is held for a key by itself. -/
theorem apply_congr {m m' : PriceMap} {symbol : String} {time : Timestamp}
    (h : m symbol time = m' symbol time) (query : Store.Query) :
    m.apply query symbol time = m'.apply query symbol time := by
  cases query with
  | appendPrice bar => simp only [apply, insertNew, h]
  | prune cutoff => simp only [apply, dropBefore, h]
  | _ => exact h

/-- A query that does not touch a key leaves what is held for it. -/
theorem apply_of_not_touches {m : PriceMap} {symbol : String} {time : Timestamp}
    {query : Store.Query} (h : query.touches symbol time = false) :
    m.apply query symbol time = m symbol time := by
  cases query with
  | appendPrice bar =>
      have hother : ¬ (symbol = bar.symbol ∧ time = bar.time ∧ m symbol time = none) := by
        rintro ⟨rfl, rfl, -⟩
        simp [Store.Query.touches] at h
      simp only [apply, insertNew, if_neg hother]
  | prune cutoff =>
      have hkept : ¬ time < cutoff := by simpa [Store.Query.touches] using h
      simp only [apply, dropBefore, if_neg hkept]
  | _ => rfl

/-- What is held for a key depends on the queries that touch it. -/
theorem foldl_apply_filter {m m' : PriceMap} {symbol : String} {time : Timestamp}
    (h : m symbol time = m' symbol time) (queries : List Store.Query) :
    queries.foldl apply m symbol time =
      (queries.filter (·.touches symbol time)).foldl apply m' symbol time := by
  induction queries generalizing m m' with
  | nil => exact h
  | cons query rest ih =>
      rw [List.foldl_cons]
      cases htouch : query.touches symbol time with
      | true =>
          rw [List.filter_cons_of_pos htouch, List.foldl_cons]
          exact ih (apply_congr h query)
      | false =>
          rw [List.filter_cons_of_neg (by simp [htouch])]
          exact ih ((apply_of_not_touches htouch).trans h)

/-- Runs that differ in the order of different keys make the same map. -/
theorem after_eq_of_reordered {queries others : List Store.Query}
    (h : Reordered queries others) : after queries = after others := by
  funext symbol time
  rw [after, foldl_apply_filter rfl, h symbol time, ← foldl_apply_filter rfl, after]

end PriceMap

/-- Runs that differ in the order of different keys leave the same series. -/
theorem bars_eq_of_reordered {queries others : List Store.Query} (h : Reordered queries others)
    (symbol : String) :
    (({} : Store).carryOut queries).bars symbol = (({} : Store).carryOut others).bars symbol := by
  have hlists := PriceMap.lists_carryOut queries symbol
  rw [PriceMap.after_eq_of_reordered h] at hlists
  exact hlists.unique (PriceMap.lists_carryOut others symbol)

/-- **The first write of a price stays.** After any queries to a store that starts empty, the series
of a symbol is the ascending listing of the map that takes an append only where it holds nothing
and drops what is from before the cutoff of a prune. What the store answers about the symbol are the
newest window, the latest bar and the number of times of that map, and appends of different keys may
have come in any order. -/
theorem carryOut_first_write (queries : List Store.Query) (symbol : String) :
    let s := ({} : Store).carryOut queries
    let m := PriceMap.after queries
    m.Lists symbol (s.bars symbol) ∧
      (∀ limit window, s.recentPrices symbol limit = window ↔ m.Newest symbol limit window) ∧
      (∀ bar, s.latestPrice symbol = some bar ↔ m.IsLatest symbol bar) ∧
      (s.latestPrice symbol = none ↔ ∀ time, m symbol time = none) ∧
      s.priceCount symbol = m.count symbol ∧
      ∀ others, Reordered queries others →
        let s' := ({} : Store).carryOut others
        (∀ limit, s'.recentPrices symbol limit = s.recentPrices symbol limit) ∧
          s'.latestPrice symbol = s.latestPrice symbol ∧
          s'.priceCount symbol = s.priceCount symbol := by
  intro s m
  have hlists : m.Lists symbol (s.bars symbol) := PriceMap.lists_carryOut queries symbol
  refine ⟨hlists, fun limit window => ⟨?_, ?_⟩, fun bar => hlists.getLast?_eq_some_iff, ?_,
    hlists.count_eq.symm, fun others hothers => ?_⟩
  · rintro rfl
    exact hlists.newest_trailing limit
  · exact (hlists.newest_trailing limit).unique
  · simp only [Store.latestPrice, List.getLast?_eq_none_iff, hlists.eq_none_iff]
    exact ⟨fun hnil => by simp [hnil], fun hnew =>
      List.eq_nil_iff_forall_not_mem.mpr fun bar hbar => hnew bar.time bar hbar rfl⟩
  · have hbars := (bars_eq_of_reordered hothers symbol).symm
    simp only [Store.recentPrices, Store.latestPrice, Store.priceCount, hbars, s, implies_true,
      and_self]

/-- A bar of one instrument at a single price. -/
def flatBar (price : Float) (time : Timestamp) : Bar :=
  ⟨"AAPL", "NASDAQ", price, price, price, price, 1000, 0, time⟩

/-- Two bars in either order, the earlier one written once more behind them: the two first writes
make the window. -/
theorem carryOut_first_write_swapped :
    let early := flatBar 100 .epoch
    let late := flatBar 101 ⟨60, 0, by decide⟩
    let again := .appendPrice (flatBar 102 .epoch)
    let queries := [.appendPrice late, .appendPrice early, again]
    let others := [.appendPrice early, .appendPrice late, again]
    Reordered queries others ∧
      (({} : Store).carryOut queries).recentPrices "AAPL" 2 = [early, late] ∧
      (({} : Store).carryOut others).recentPrices "AAPL" 2 = [early, late] := by
  intro early late again queries others
  have hreordered : Reordered queries others :=
    reordered_of_perm (.swap early late []) (by decide) [] [again]
  have hwindow : (({} : Store).carryOut queries).recentPrices "AAPL" 2 = [early, late] := by
    decide +kernel
  have hother := (carryOut_first_write queries "AAPL").2.2.2.2.2 others hreordered
  exact ⟨hreordered, hwindow, (hother.1 2).trans hwindow⟩

end MarketSignals
