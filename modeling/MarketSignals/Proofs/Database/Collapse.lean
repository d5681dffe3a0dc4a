import MarketSignals.Price

/-!
# Collapsing replays

What is kept of a series in which bars of one time stand beside each other: the first bar of each
time. Parts of a series that share no time are collapsed on their own.

## Main results

* `collapseByTime_append`: collapsing goes through parts that share no time.
* `ordered_collapseByTime`: what is kept of an ordered series is in the strict order of time.
* `mem_collapseByTime_iff`: a bar is kept exactly when it is the first one of its time.
* `find?_collapseByTime`: the first bar of a time stays the first one.
-/

namespace MarketSignals

@[simp] theorem collapseByTime_nil : collapseByTime [] = [] :=
  rfl

/-- A bar of the same time as the one before it is dropped. -/
theorem collapseByTime_cons_of_eq {a b : Bar} (h : b.time = a.time) (rest : List Bar) :
    collapseByTime (a :: b :: rest) = collapseByTime (a :: rest) := by
  simp [collapseByTime, collapseByTime.go, h]

/-- A bar of another time than the one before it is kept. -/
theorem collapseByTime_cons_of_ne {a b : Bar} (h : b.time ≠ a.time) (rest : List Bar) :
    collapseByTime (a :: b :: rest) = a :: collapseByTime (b :: rest) := by
  simp [collapseByTime, collapseByTime.go, h]

/-- What holds of the empty series and of one bar, and passes from a shorter series to one with a
dropped or a kept bar in front, holds of every series. -/
theorem collapse_induction {P : List Bar → Prop} (nil : P []) (single : ∀ a, P [a])
    (drop : ∀ a b rest, b.time = a.time → P (a :: rest) → P (a :: b :: rest))
    (keep : ∀ a b rest, b.time ≠ a.time → P (b :: rest) → P (a :: b :: rest)) (bars : List Bar) :
    P bars := by
  cases bars with
  | nil => exact nil
  | cons a rest =>
      induction rest generalizing a with
      | nil => exact single a
      | cons b rest ih =>
          by_cases h : b.time = a.time
          · exact drop a b rest h (ih a)
          · exact keep a b rest h (ih b)

/-- Something is kept of every series but the empty one. -/
@[simp] theorem collapseByTime_eq_nil_iff {bars : List Bar} :
    collapseByTime bars = [] ↔ bars = [] := by
  cases bars <;> simp [collapseByTime]

/-- Bars of one time are collapsed to the first. -/
theorem collapseByTime_same {a : Bar} {rest : List Bar} (h : ∀ b ∈ rest, b.time = a.time) :
    collapseByTime (a :: rest) = [a] := by
  induction rest with
  | nil => rfl
  | cons b rest ih =>
      rw [collapseByTime_cons_of_eq (h b List.mem_cons_self)]
      exact ih fun c hc => h c (List.mem_cons_of_mem _ hc)

/-- Parts of a series that share no time are collapsed on their own. -/
theorem collapseByTime_append {front back : List Bar}
    (h : ∀ a ∈ front, ∀ b ∈ back, b.time ≠ a.time) :
    collapseByTime (front ++ back) = collapseByTime front ++ collapseByTime back := by
  induction front using collapse_induction with
  | nil => rfl
  | single a =>
      cases back with
      | nil => rfl
      | cons b rest => exact collapseByTime_cons_of_ne (h a (by simp) b (by simp)) rest
  | drop a b rest hsame ih =>
      rw [List.cons_append, List.cons_append, collapseByTime_cons_of_eq hsame,
        collapseByTime_cons_of_eq hsame, ← List.cons_append]
      exact ih fun c hc => h c (by grind)
  | keep a b rest hother ih =>
      have hrest := ih fun c hc => h c (List.mem_cons_of_mem _ hc)
      rw [List.cons_append] at hrest
      rw [List.cons_append, List.cons_append, collapseByTime_cons_of_ne hother,
        collapseByTime_cons_of_ne hother, hrest, List.cons_append]

/-- What is kept is kept in its order. -/
theorem sublist_collapseByTime (bars : List Bar) : (collapseByTime bars).Sublist bars := by
  induction bars using collapse_induction with
  | nil => exact List.Sublist.refl _
  | single a => exact List.Sublist.refl _
  | drop a b rest hsame ih =>
      rw [collapseByTime_cons_of_eq hsame]
      exact ih.trans ((List.sublist_cons_self b rest).cons_cons a)
  | keep a b rest hother ih =>
      rw [collapseByTime_cons_of_ne hother]
      exact ih.cons_cons a

/-- Only bars of the series are kept. -/
theorem mem_of_mem_collapseByTime {bars : List Bar} {b : Bar} (h : b ∈ collapseByTime bars) :
    b ∈ bars :=
  (sublist_collapseByTime bars).subset h

/-- The first bar of a time is the first one of it that is kept. -/
theorem find?_collapseByTime (bars : List Bar) (time : Timestamp) :
    (collapseByTime bars).find? (·.time = time) = bars.find? (·.time = time) := by
  induction bars using collapse_induction with
  | nil => rfl
  | single a => rfl
  | drop a b rest hsame ih =>
      rw [collapseByTime_cons_of_eq hsame, ih]
      by_cases ha : a.time = time <;> simp [ha, hsame]
  | keep a b rest hother ih =>
      rw [collapseByTime_cons_of_ne hother]
      by_cases ha : a.time = time
      · simp [ha]
      · simpa [ha] using ih

/-- Nothing is dropped where no two bars that stand beside each other are of one time. -/
theorem collapseByTime_of_ordered {bars : List Bar} (h : bars.Pairwise (·.time < ·.time)) :
    collapseByTime bars = bars := by
  induction bars using collapse_induction with
  | nil => rfl
  | single a => rfl
  | drop a b rest hsame _ =>
      have hlater := (List.pairwise_cons.mp h).1 b List.mem_cons_self
      exact absurd hsame (Timestamp.ne_of_lt hlater).symm
  | keep a b rest hother ih =>
      rw [collapseByTime_cons_of_ne hother, ih h.of_cons]

/-- In an ordered series all that follows a bar of a later time is later. -/
theorem lt_of_keep {a b c : Bar} {rest : List Bar}
    (h : (a :: b :: rest).Pairwise (·.time ≤ ·.time)) (hother : b.time ≠ a.time)
    (hc : c ∈ b :: rest) : a.time < c.time := by
  obtain ⟨ha, hrest⟩ := List.pairwise_cons.mp h
  have hab := Timestamp.lt_of_le_of_ne (ha b List.mem_cons_self) hother.symm
  rcases List.mem_cons.mp hc with rfl | hc
  · exact hab
  · exact Timestamp.lt_of_lt_of_le hab ((List.pairwise_cons.mp hrest).1 c hc)

/-- What is kept of an ordered series is in the strict order of time. -/
theorem ordered_collapseByTime {bars : List Bar} (h : bars.Pairwise (·.time ≤ ·.time)) :
    (collapseByTime bars).Pairwise (·.time < ·.time) := by
  induction bars using collapse_induction with
  | nil => exact List.Pairwise.nil
  | single a => exact List.pairwise_singleton _ a
  | drop a b rest hsame ih =>
      rw [collapseByTime_cons_of_eq hsame]
      exact ih (h.sublist (by simp))
  | keep a b rest hother ih =>
      rw [collapseByTime_cons_of_ne hother]
      refine List.pairwise_cons.mpr ⟨fun c hc => ?_, ih h.of_cons⟩
      exact lt_of_keep h hother (mem_of_mem_collapseByTime hc)

/-- A bar is kept of an ordered series exactly when it is the first one of its time. -/
theorem mem_collapseByTime_iff {bars : List Bar} (h : bars.Pairwise (·.time ≤ ·.time)) {b : Bar} :
    b ∈ collapseByTime bars ↔ bars.find? (·.time = b.time) = some b := by
  induction bars using collapse_induction with
  | nil => simp [collapseByTime]
  | single a =>
      rw [collapseByTime_same (by simp), List.mem_singleton]
      by_cases ha : a.time = b.time
      · simp [ha, eq_comm]
      · rw [List.find?_cons_of_neg (by simpa using ha)]
        exact ⟨fun hb => absurd (congrArg Bar.time hb.symm) ha, nofun⟩
  | drop a c rest hsame ih =>
      rw [collapseByTime_cons_of_eq hsame, ih (h.sublist (by simp))]
      by_cases ha : a.time = b.time <;> simp [ha, hsame]
  | keep a c rest hother ih =>
      rw [collapseByTime_cons_of_ne hother, List.mem_cons, ih h.of_cons]
      by_cases ha : a.time = b.time
      · rw [List.find?_cons_of_pos (l := c :: rest) (by simpa using ha), Option.some.injEq]
        refine ⟨fun hb => (hb.resolve_right fun hfind => ?_).symm, fun hb => .inl hb.symm⟩
        exact Timestamp.ne_of_lt (lt_of_keep h hother (List.mem_of_find?_eq_some hfind)) ha
      · rw [List.find?_cons_of_neg (l := c :: rest) (by simpa using ha)]
        exact or_iff_right fun hb => ha (congrArg Bar.time hb.symm)

end MarketSignals
