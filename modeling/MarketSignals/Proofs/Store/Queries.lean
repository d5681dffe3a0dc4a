import MarketSignals.Store

/-!
# Runs of queries

What a store holds after queries that were put to it one after the other: the signals of the run in
the order they came, and the series of each symbol, which only appended bars and prunes change.

## Main results

* `Store.signals_carryOut`: signals are only ever added, at the end.
* `Store.bars_appendPrice`, `Store.bars_prune`: what a query does to the series of a symbol.
* `Store.bars_appends`: appends of one symbol are insertions into its series.
* `ordered_insertBar`, `mem_insertBar_iff_of_ordered`: insertion into an ordered series keeps it
  ordered and adds the bar where its time is new.
-/

namespace MarketSignals

/-! ### Insertion into an ordered series -/

/-- An insertion adds no bar but the one inserted. -/
theorem mem_of_mem_insertBar {bar b : Bar} {bars : List Bar} (h : b ∈ insertBar bar bars) :
    b = bar ∨ b ∈ bars := by
  induction bars with
  | nil => simpa [insertBar] using h
  | cons first rest ih =>
      rw [insertBar] at h
      split at h
      · simpa using h
      · split at h
        · exact .inr h
        · rcases List.mem_cons.mp h with rfl | hmem
          · exact .inr List.mem_cons_self
          · exact (ih hmem).imp_right (List.mem_cons_of_mem _)

/-- Insertion keeps a series ordered by time. -/
theorem ordered_insertBar {bar : Bar} {bars : List Bar} (h : bars.Pairwise (·.time < ·.time)) :
    (insertBar bar bars).Pairwise (·.time < ·.time) := by
  induction bars with
  | nil => simp [insertBar]
  | cons first rest ih =>
      obtain ⟨hfirst, hrest⟩ := List.pairwise_cons.mp h
      rw [insertBar]
      split
      · rename_i hbefore
        refine List.pairwise_cons.mpr ⟨fun b hb => ?_, h⟩
        rcases List.mem_cons.mp hb with rfl | hb
        · exact hbefore
        · exact Timestamp.lt_trans hbefore (hfirst b hb)
      · split
        · exact h
        · rename_i hbefore hsame
          have hafter : first.time < bar.time := by
            rcases Timestamp.lt_trichotomy bar.time first.time with hlt | heq | hlt
            · exact absurd hlt hbefore
            · exact absurd heq hsame
            · exact hlt
          refine List.pairwise_cons.mpr ⟨fun b hb => ?_, ih hrest⟩
          rcases mem_of_mem_insertBar hb with rfl | hb
          · exact hafter
          · exact hfirst b hb

/-- Insertion into an ordered series adds the bar exactly where its time is new. -/
theorem mem_insertBar_iff_of_ordered {bar b : Bar} {bars : List Bar}
    (h : bars.Pairwise (·.time < ·.time)) :
    b ∈ insertBar bar bars ↔ b ∈ bars ∨ b = bar ∧ ∀ c ∈ bars, c.time ≠ bar.time := by
  by_cases hknown : ∃ c ∈ bars, c.time = bar.time
  · rw [insertBar_of_mem h hknown]
    obtain ⟨c, hc, hsame⟩ := hknown
    exact ⟨.inl, fun hb => hb.elim id fun ⟨_, hnew⟩ => absurd hsame (hnew c hc)⟩
  · have hnew : ∀ c ∈ bars, c.time ≠ bar.time := fun c hc hsame => hknown ⟨c, hc, hsame⟩
    rw [mem_insertBar_iff hnew, or_comm]
    exact or_congr_right (iff_self_and.mpr fun _ => hnew)

namespace Store

/-- The store after queries, put to it one after the other. -/
def carryOut (s : Store) (queries : List Query) : Store :=
  queries.foldl (fun s query => (s.ask query).2) s

@[simp] theorem carryOut_nil (s : Store) : s.carryOut [] = s :=
  rfl

@[simp] theorem carryOut_cons (s : Store) (query : Query) (rest : List Query) :
    s.carryOut (query :: rest) = (s.ask query).2.carryOut rest :=
  rfl

@[simp] theorem carryOut_append (s : Store) (queries more : List Query) :
    s.carryOut (queries ++ more) = (s.carryOut queries).carryOut more :=
  List.foldl_append

/-! ### Signals -/

/-- The signal that a query adds. -/
def Query.signal? : Query → Option Signal
  | .appendSignal signal => some signal
  | _ => none

/-- Signals are only ever added, at the end. -/
theorem signals_carryOut (s : Store) (queries : List Query) :
    (s.carryOut queries).signals = s.signals ++ queries.filterMap Query.signal? := by
  induction queries generalizing s with
  | nil => simp
  | cons query rest ih =>
      rw [carryOut_cons, ih]
      cases query <;> simp [ask, List.filterMap_cons, Query.signal?, addInstrument, appendPrice,
        appendSnapshot, appendSignal, prune]

/-! ### Series -/

@[simp] theorem bars_empty (symbol : String) : ({} : Store).bars symbol = [] :=
  rfl

/-- A bar goes into the series of its symbol and into no other. -/
theorem bars_appendPrice (s : Store) (bar : Bar) (symbol : String) :
    (s.appendPrice bar).bars symbol =
      if bar.symbol = symbol then insertBar bar (s.bars symbol) else s.bars symbol := by
  rw [bars, appendPrice, Keyed.get?_insert]
  split
  · rename_i hsame
    rw [hsame, Option.getD_some, bars]
  · rfl

/-- Appends of one symbol are insertions into its series. -/
theorem bars_appends (s : Store) {symbol : String} {bars : List Bar}
    (hbars : ∀ bar ∈ bars, bar.symbol = symbol) :
    (s.carryOut (bars.map .appendPrice)).bars symbol =
      bars.foldl (fun series bar => insertBar bar series) (s.bars symbol) := by
  induction bars generalizing s with
  | nil => rfl
  | cons bar rest ih =>
      obtain ⟨hbar, hrest⟩ := List.forall_mem_cons.mp hbars
      have happend : ((s.ask (.appendPrice bar)).2).bars symbol = insertBar bar (s.bars symbol) :=
        (bars_appendPrice s bar symbol).trans (if_pos hbar)
      rw [List.map_cons, carryOut_cons, ih _ hrest, happend, List.foldl_cons]

/-- Every series loses its bars from before the cutoff. -/
theorem bars_prune (s : Store) (cutoff : Timestamp) (symbol : String) :
    (s.prune cutoff).bars symbol = (s.bars symbol).filter (cutoff ≤ ·.time) := by
  rw [bars, bars, prune, Keyed.get?_mapValues]
  cases s.prices.get? symbol <;> rfl

end Store

end MarketSignals
