import Mathlib.Data.List.Basic
import MarketSignals.Proofs.Store.Queries

/-!
# Searching a series

Where a bar goes in a series, found by halving the range of places that are left. A search of an
ordered series answers with the place of a bar of the time it looks for, or, where there is none,
with the place between the earlier bars and the later ones. Putting a bar where any such answer says
is the insertion that goes through the series bar by bar.

## Main results

* `insertBar_eq_insertAt`: an insertion is what the answer of a search makes of the series.
* `Brackets.step`: halving keeps the place that is looked for in range.
* `isPlace_search`: a search of an ordered series finds the place of every time.
-/

namespace MarketSignals

variable {series : List Bar} {bar : Bar} {time : Timestamp}

/-! ### Places -/

/-- What a search of a series for a time may answer: the place of a bar of that time, or the place
that has all earlier bars before it and all others, which are later, behind it. -/
def IsPlace (series : List Bar) (time : Timestamp) : Except Nat Nat → Prop
  | .ok place => ∃ bar, series[place]? = some bar ∧ bar.time = time
  | .error place => place ≤ series.length ∧ (∀ b ∈ series.take place, b.time < time) ∧
      ∀ b ∈ series.drop place, time < b.time

/-- A series with a bar put where a search says; a bar that was found stays. -/
def insertAt (bar : Bar) (series : List Bar) : Except Nat Nat → List Bar
  | .ok _ => series
  | .error place => series.take place ++ bar :: series.drop place

/-- A bar goes between the earlier bars and the later ones. -/
theorem insertBar_append {earlier later : List Bar} (hearlier : ∀ b ∈ earlier, b.time < bar.time)
    (hlater : ∀ b ∈ later, bar.time < b.time) :
    insertBar bar (earlier ++ later) = earlier ++ bar :: later := by
  induction earlier with
  | nil =>
      cases later with
      | nil => rfl
      | cons first rest => exact if_pos (hlater first List.mem_cons_self)
  | cons first rest ih =>
      obtain ⟨hfirst, hrest⟩ := List.forall_mem_cons.mp hearlier
      rw [List.cons_append, insertBar, if_neg (Timestamp.lt_asymm hfirst),
        if_neg (Timestamp.ne_of_lt hfirst).symm, ih hrest, List.cons_append]

/-- An insertion into an ordered series is what any answer of a search makes of it. -/
theorem insertBar_eq_insertAt {answer : Except Nat Nat}
    (hordered : series.Pairwise (·.time < ·.time)) (h : IsPlace series bar.time answer) :
    insertBar bar series = insertAt bar series answer := by
  cases answer with
  | ok place =>
      obtain ⟨found, hfound, hsame⟩ := h
      exact insertBar_of_mem hordered ⟨found, List.mem_of_getElem? hfound, hsame⟩
  | error place =>
      obtain ⟨-, hearlier, hlater⟩ := h
      rw [insertAt, ← insertBar_append hearlier hlater, List.take_append_drop]

/-! ### Halving -/

/-- The last place that is left when the range of `size` places from `base` on is halved again and
again. The upper half goes where it starts with a bar that is later than the time. -/
def halve (series : List Bar) (time : Timestamp) (base size : Nat) : Nat :=
  if 1 < size then
    let middle := base + size / 2
    halve series time (if (series[middle]?).any (time < ·.time) then base else middle)
      (size - size / 2)
  else base
termination_by size

/-- The place of a time in a series, by halving. -/
def search (series : List Bar) (time : Timestamp) : Except Nat Nat :=
  let base := halve series time 0 series.length
  match series[base]? with
  | none => .error 0
  | some bar =>
    if bar.time = time then .ok base
    else if bar.time < time then .error (base + 1)
    else .error base

/-- Whether what is left when a series is halved goes around the place of a time: the first bar that
is left is not later, unless it is the first of all, and all bars behind those left are later. -/
structure Brackets (series : List Bar) (time : Timestamp) (base size : Nat) : Prop where
  size_pos : 0 < size
  bounded : base + size ≤ series.length
  low : base = 0 ∨ ∃ b, series[base]? = some b ∧ b.time ≤ time
  high : ∀ i b, base + size ≤ i → series[i]? = some b → time < b.time

/-- In an ordered series the bar at a later place is later. -/
theorem time_lt_of_place_lt (hordered : series.Pairwise (·.time < ·.time)) {i j : Nat} {a b : Bar}
    (hij : i < j) (ha : series[i]? = some a) (hb : series[j]? = some b) : a.time < b.time := by
  obtain ⟨hi, rfl⟩ := List.getElem?_eq_some_iff.mp ha
  obtain ⟨hj, rfl⟩ := List.getElem?_eq_some_iff.mp hb
  exact List.pairwise_iff_getElem.mp hordered i j hi hj hij

/-- The whole of a series goes around every place. -/
theorem brackets_zero (hsome : series ≠ []) (time : Timestamp) :
    Brackets series time 0 series.length where
  size_pos := List.length_pos_iff.mpr hsome
  bounded := by omega
  low := .inl rfl
  high i b hi hb := by
    obtain ⟨hlt, -⟩ := List.getElem?_eq_some_iff.mp hb
    omega

/-- Halving keeps the place in range. -/
theorem Brackets.step {base size : Nat} (hordered : series.Pairwise (·.time < ·.time))
    (h : Brackets series time base size) (hsize : 1 < size) :
    Brackets series time
      (if (series[base + size / 2]?).any (time < ·.time) then base else base + size / 2)
      (size - size / 2) := by
  have hbounded := h.bounded
  have hmiddle : base + size / 2 < series.length := by omega
  obtain ⟨middle, hat⟩ : ∃ b, series[base + size / 2]? = some b :=
    ⟨_, List.getElem?_eq_getElem hmiddle⟩
  by_cases hlater : time < middle.time
  · rw [if_pos (by simp [hat, hlater])]
    refine ⟨by omega, by omega, h.low, fun i b hi hb => ?_⟩
    rcases Nat.lt_or_eq_of_le (show base + size / 2 ≤ i by omega) with hlt | rfl
    · exact Timestamp.lt_trans hlater (time_lt_of_place_lt hordered hlt hat hb)
    · obtain rfl : middle = b := Option.some.inj (hat.symm.trans hb)
      exact hlater
  · rw [if_neg (by simp [hat, hlater])]
    refine ⟨by omega, by omega, .inr ⟨middle, hat, Timestamp.not_lt.mp hlater⟩, ?_⟩
    intro i b hi hb
    exact h.high i b (by omega) hb

/-- What is left in the end is one place. -/
theorem Brackets.halve {base size : Nat} (hordered : series.Pairwise (·.time < ·.time))
    (h : Brackets series time base size) :
    Brackets series time (halve series time base size) 1 := by
  fun_induction MarketSignals.halve series time base size with
  | case1 base size hsize middle ih => exact ih (h.step hordered hsize)
  | case2 base size hsize =>
      have hpos := h.size_pos
      obtain rfl : size = 1 := by omega
      exact h

/-- The bars before those left are earlier. -/
theorem Brackets.before {base size : Nat} (hordered : series.Pairwise (·.time < ·.time))
    (h : Brackets series time base size) {b : Bar} (hb : b ∈ series.take base) : b.time < time := by
  obtain ⟨i, hi, rfl⟩ := List.mem_take_iff_getElem.mp hb
  rcases h.low with rfl | ⟨first, hfirst, hle⟩
  · omega
  · have hearlier := time_lt_of_place_lt hordered (show i < base by omega)
      (List.getElem?_eq_getElem (by omega)) hfirst
    exact Timestamp.lt_of_lt_of_le hearlier hle

/-- The bars behind those left are later. -/
theorem Brackets.behind {base size : Nat} (h : Brackets series time base size) {b : Bar}
    (hb : b ∈ series.drop (base + size)) : time < b.time := by
  obtain ⟨i, hi⟩ := List.getElem?_of_mem hb
  rw [List.getElem?_drop] at hi
  exact h.high _ b (Nat.le_add_right _ i) hi

/-- What is left around a time in the end is the place of its bar, or the one before it goes. -/
theorem Brackets.isPlace {base : Nat} (hordered : series.Pairwise (·.time < ·.time))
    (h : Brackets series time base 1) (hat : series[base]? = some bar) :
    IsPlace series time (if bar.time = time then .ok base
      else if bar.time < time then .error (base + 1) else .error base) := by
  obtain ⟨hbase, rfl⟩ := List.getElem?_eq_some_iff.mp hat
  split_ifs with hsame hbefore
  · exact ⟨_, hat, hsame⟩
  · refine ⟨h.bounded, fun b hb => ?_, fun b hb => h.behind hb⟩
    rw [List.take_succ_eq_append_getElem hbase, List.mem_append, List.mem_singleton] at hb
    rcases hb with hb | rfl
    · exact h.before hordered hb
    · exact hbefore
  · refine ⟨Nat.le_of_lt hbase, fun b hb => h.before hordered hb, fun b hb => ?_⟩
    rw [List.drop_eq_getElem_cons hbase, List.mem_cons] at hb
    rcases hb with rfl | hb
    · exact Timestamp.lt_of_le_of_ne (Timestamp.not_lt.mp hbefore) (Ne.symm hsame)
    · exact h.behind hb

/-- A search of an ordered series finds the place of every time. -/
theorem isPlace_search (hordered : series.Pairwise (·.time < ·.time)) (time : Timestamp) :
    IsPlace series time (search series time) := by
  by_cases hsome : series = []
  · subst hsome
    simp [search, IsPlace]
  · have hleft := (brackets_zero hsome time).halve hordered
    have hbase : halve series time 0 series.length < series.length := hleft.bounded
    obtain ⟨bar, hat⟩ : ∃ b, series[halve series time 0 series.length]? = some b :=
      ⟨_, List.getElem?_eq_getElem hbase⟩
    simp only [search, hat]
    exact hleft.isPlace hordered hat

end MarketSignals
