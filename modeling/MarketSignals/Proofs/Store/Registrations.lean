import Mathlib.Data.List.Sort
import MarketSignals.Proofs.Sorting
import MarketSignals.Proofs.Store.Queries

/-!
# Registrations

What a store makes of the instruments that are added to it. Under each symbol it keeps the one that
was added last, so that which instruments are active follows from the run alone, and not from the
order in which a map lists its entries: the active ones are due in the order of their symbols, and
only one list of instruments is both complete and in that order.

## Main results

* `findInstrument_carryOut`: the instrument of a symbol is the one that was added last.
* `isDue_of_perm`: the active instruments are those whose last registration is active, however the
  map lists its entries.
* `IsDue.unique`: there is one such list.
-/

namespace MarketSignals

/-- Maps with the same entries, in whatever order, hold the same values. -/
theorem Keyed.get?_eq_of_perm {α : Type} {m m' : Keyed α} (h : m.entries.Perm m'.entries)
    (name : String) : m.get? name = m'.get? name :=
  Option.ext fun value => by rw [← mem_entries_iff, ← mem_entries_iff, h.mem_iff]

namespace Store

/-! ### The last registration -/

/-- The instrument that a query adds. -/
def Query.instrument? : Query → Option Instrument
  | .addInstrument instrument => some instrument
  | _ => none

/-- The instrument that queries added last under a symbol. -/
def lastRegistration (queries : List Query) (symbol : String) : Option Instrument :=
  (queries.filterMap Query.instrument?).reverse.find? (·.symbol = symbol)

theorem symbol_of_lastRegistration {queries : List Query} {symbol : String}
    {instrument : Instrument} (h : lastRegistration queries symbol = some instrument) :
    instrument.symbol = symbol := by
  simpa using List.find?_some h

/-- One query changes the instrument of a symbol where it adds one under the symbol. -/
theorem findInstrument_ask (s : Store) (query : Query) (symbol : String) :
    (s.ask query).2.findInstrument symbol =
      (lastRegistration [query] symbol).or (s.findInstrument symbol) := by
  cases query with
  | addInstrument instrument =>
      show (s.instruments.insert instrument.symbol instrument).get? symbol = _
      rw [Keyed.get?_insert, findInstrument]
      by_cases hsame : instrument.symbol = symbol <;>
        simp [lastRegistration, Query.instrument?, hsame]
  | _ => rfl

/-- Of two runs the later one decides, where it adds an instrument of the symbol at all. -/
theorem lastRegistration_append (queries more : List Query) (symbol : String) :
    lastRegistration (queries ++ more) symbol =
      (lastRegistration more symbol).or (lastRegistration queries symbol) := by
  rw [lastRegistration, List.filterMap_append, List.reverse_append, List.find?_append]
  rfl

/-- The instrument of a symbol is the one that was added last, else the one that was there. -/
theorem findInstrument_carryOut (s : Store) (queries : List Query) (symbol : String) :
    (s.carryOut queries).findInstrument symbol =
      (lastRegistration queries symbol).or (s.findInstrument symbol) := by
  induction queries generalizing s with
  | nil => rfl
  | cons query rest ih =>
      rw [carryOut_cons, ih, findInstrument_ask, ← Option.or_assoc, ← lastRegistration_append,
        List.singleton_append]

/-- Queries that add nothing under a symbol leave its instrument. -/
theorem findInstrument_carryOut_of_unregistered {s : Store} {later : List Query} {symbol : String}
    (h : ∀ instrument, .addInstrument instrument ∈ later → instrument.symbol ≠ symbol) :
    (s.carryOut later).findInstrument symbol = s.findInstrument symbol := by
  have hnone : lastRegistration later symbol = none := by
    refine List.find?_eq_none.mpr fun instrument hmem hsame => ?_
    obtain ⟨query, hquery, hadds⟩ := List.mem_filterMap.mp (List.mem_reverse.mp hmem)
    cases query with
    | addInstrument added =>
        obtain rfl : added = instrument := Option.some.inj hadds
        exact h added hquery (of_decide_eq_true hsame)
    | _ => cases hadds
  rw [findInstrument_carryOut, hnone, Option.none_or]

/-! ### Active instruments -/

/-- The instruments of a list are those whose last registration is active, in the order of their
symbols, each once. -/
structure IsDue (queries : List Query) (due : List Instrument) : Prop where
  /-- The symbols ascend. -/
  ascending : due.Pairwise (·.symbol < ·.symbol)
  /-- An instrument is there where it was added last under its symbol, and is active. -/
  mem_iff : ∀ instrument, instrument ∈ due ↔
    lastRegistration queries instrument.symbol = some instrument ∧ instrument.active

/-- There is one list of what is due. -/
theorem IsDue.unique {queries : List Query} {due due' : List Instrument} (h : IsDue queries due)
    (h' : IsDue queries due') : due = due' := by
  have : Std.Irrefl fun a b : Instrument => a.symbol < b.symbol :=
    ⟨fun a => String.lt_irrefl a.symbol⟩
  have : Std.Antisymm fun a b : Instrument => a.symbol < b.symbol :=
    ⟨fun a b hab hba => absurd hba (String.lt_asymm hab)⟩
  exact h.ascending.eq_of_mem_iff h'.ascending fun instrument =>
    (h.mem_iff instrument).trans (h'.mem_iff instrument).symm

theorem symbolOrder_trans (a b c : Instrument) (hab : symbolOrder a b) (hbc : symbolOrder b c) :
    symbolOrder a c :=
  decide_eq_true (String.le_trans (of_decide_eq_true hab) (of_decide_eq_true hbc))

theorem symbolOrder_total (a b : Instrument) : symbolOrder a b || symbolOrder b a := by
  simpa [symbolOrder] using String.le_total a.symbol b.symbol

/-- Instruments of different symbols are listed with their symbols ascending. -/
theorem activeAmong_ascending {instruments : List Instrument}
    (h : (instruments.map (·.symbol)).Nodup) :
    (activeAmong instruments).Pairwise (·.symbol < ·.symbol) := by
  have hdistinct : (instruments.filter Instrument.active).Pairwise fun a b => a.symbol ≠ b.symbol :=
    (List.pairwise_map.mp h).sublist List.filter_sublist
  refine (pairwise_mergeSort_of_pairwise symbolOrder_trans symbolOrder_total hdistinct).imp
    fun {a b} ⟨hle, hne⟩ => ?_
  refine String.not_le.mp fun hge => hne (decide_eq_true hge) ?_
  exact String.le_antisymm (of_decide_eq_true hle) hge

/-- Under each symbol a store holds what was registered last, in whatever order its map lists the
entries. -/
theorem findInstrument_of_perm {s : Store} {queries : List Query}
    (h : s.instruments.entries.Perm (({} : Store).carryOut queries).instruments.entries)
    (symbol : String) : s.findInstrument symbol = lastRegistration queries symbol := by
  rw [findInstrument, Keyed.get?_eq_of_perm h]
  exact (findInstrument_carryOut {} queries symbol).trans Option.or_none

/-- The active instruments are those that are due, in whatever order the map lists its entries. -/
theorem isDue_of_perm {s : Store} {queries : List Query}
    (h : s.instruments.entries.Perm (({} : Store).carryOut queries).instruments.entries) :
    IsDue queries s.activeInstruments := by
  have hfind : ∀ symbol, s.instruments.get? symbol = lastRegistration queries symbol :=
    findInstrument_of_perm h
  have hname : ∀ entry ∈ s.instruments.entries, entry.2.symbol = entry.1 := fun entry hentry =>
    symbol_of_lastRegistration ((hfind entry.1).symm.trans (Keyed.mem_entries_iff.mp hentry))
  constructor
  · refine activeAmong_ascending ?_
    have hsymbols : s.instruments.values.map (·.symbol) = s.instruments.entries.map (·.1) := by
      rw [Keyed.values, List.map_map]
      exact List.map_congr_left hname
    rw [hsymbols]
    exact s.instruments.names_nodup
  · intro instrument
    rw [activeInstruments, activeAmong, List.mem_mergeSort, List.mem_filter, ← hfind,
      ← Keyed.mem_entries_iff]
    refine and_congr_left fun _ => List.mem_map.trans ⟨?_, fun hentry => ⟨_, hentry, rfl⟩⟩
    rintro ⟨⟨name, found⟩, hentry, rfl⟩
    obtain rfl : found.symbol = name := hname _ hentry
    exact hentry

end Store

end MarketSignals
