import MarketSignals.Proofs.Database.Collapse
import MarketSignals.Proofs.Store.FirstWrite

/-!
# Cutting a series of replays

What becomes of the newest window of an ordered series, replays collapsed, when only the end of the
series is at hand. The window comes out unchanged as long as the cut leaves the first write of the
time it starts with, or a replay that equals it, in front of all that is left of that time.

## Main results

* `exists_around`: an ordered series falls into what is before, of and after a time.
* `Around.collapse`: what is kept of such a series.
* `Around.window_cut_iff`: where a cut leaves a window alone.
* `length_le_of_replays`: a series in which every time comes up at most so often.
-/

namespace MarketSignals

open Series

/-! ### Cutting an ordered series -/

/-- Whether three parts of a series are what is earlier than a bar, what follows it from the same
time, and what is later. -/
structure Around (first : Bar) (earlier same later : List Bar) : Prop where
  earlier : ∀ a ∈ earlier, a.time < first.time
  same : ∀ a ∈ same, a.time = first.time
  later : ∀ a ∈ later, first.time < a.time

/-- Where whatever passes a test stands before whatever fails it, the test splits a list. -/
theorem filter_append_filter_not {α : Type} {p : α → Bool} {list : List α}
    (h : list.Pairwise fun a b => p b → p a) : list.filter p ++ list.filter (!p ·) = list := by
  induction list with
  | nil => rfl
  | cons a rest ih =>
      obtain ⟨ha, hrest⟩ := List.pairwise_cons.mp h
      cases hp : p a with
      | true =>
          rw [List.filter_cons_of_pos hp, List.filter_cons_of_neg (by simp [hp]), List.cons_append,
            ih hrest]
      | false =>
          have hfail : ∀ b ∈ rest, p b = false := fun b hb => by
            simpa [hp] using ha b hb
          rw [List.filter_cons_of_neg (by simp [hp]), List.filter_cons_of_pos (by simp [hp]),
            List.filter_eq_nil_iff.mpr (by simpa using hfail),
            List.filter_eq_self.mpr (by simpa using hfail), List.nil_append]

/-- An ordered series falls into three parts around the first bar of a time. -/
theorem exists_around {series : List Bar} {first : Bar} (h : series.Pairwise (·.time ≤ ·.time))
    (hfirst : series.find? (·.time = first.time) = some first) :
    ∃ earlier same later, series = earlier ++ (first :: same ++ later) ∧
      Around first earlier same later := by
  obtain ⟨-, earlier, rest, rfl, hearlier⟩ := List.find?_eq_some_iff_append.mp hfirst
  rw [List.pairwise_append, List.pairwise_cons] at h
  obtain ⟨-, ⟨hfrom, hrest⟩, hbefore⟩ := h
  have hsplit : rest.filter (·.time = first.time) ++
      rest.filter (fun b => !decide (b.time = first.time)) = rest := by
    refine filter_append_filter_not (hrest.imp_of_mem ?_)
    intro a b ha _ hab hb
    have hba : a.time ≤ first.time := (of_decide_eq_true hb) ▸ hab
    exact decide_eq_true (Timestamp.le_antisymm hba (hfrom a ha))
  refine ⟨earlier, _, _, by rw [List.cons_append, hsplit], ?_, ?_, ?_⟩
  · intro a ha
    have hne : a.time ≠ first.time := by simpa using hearlier a ha
    exact Timestamp.lt_of_le_of_ne (hbefore a ha first List.mem_cons_self) hne
  · intro a ha
    simpa using List.of_mem_filter ha
  · intro a ha
    have hne : a.time ≠ first.time := by simpa using List.of_mem_filter ha
    exact Timestamp.lt_of_le_of_ne (hfrom a (List.mem_of_mem_filter ha)) hne.symm

/-- An ordered series falls into three parts around the bar that starts a window. -/
theorem exists_around_start {series : List Bar} {first : Bar} {limit : Nat}
    (h : series.Pairwise (·.time ≤ ·.time))
    (hstart : (trailing limit (collapseByTime series)).head? = some first) :
    ∃ earlier same later, series = earlier ++ (first :: same ++ later) ∧
      Around first earlier same later :=
  exists_around h ((mem_collapseByTime_iff h).mp
    (List.mem_of_mem_drop (List.mem_of_head? hstart)))

namespace Around

variable {first : Bar} {earlier same later : List Bar}

/-- The bar and those that follow it from the same time are of that time. -/
theorem time_eq (h : Around first earlier same later) {a : Bar} (ha : a ∈ first :: same) :
    a.time = first.time :=
  (List.mem_cons.mp ha).elim (congrArg Bar.time) (h.same a)

/-- From the bar on no time is before its own. -/
theorem le_of_mem (h : Around first earlier same later) {a : Bar}
    (ha : a ∈ first :: same ++ later) : first.time ≤ a.time := by
  rcases List.mem_append.mp ha with ha | ha
  · exact h.time_eq ha ▸ Timestamp.le_refl _
  · exact Timestamp.le_of_lt (h.later a ha)

/-- The bars of the time. -/
theorem filter_eq (h : Around first earlier same later) :
    (earlier ++ (first :: same ++ later)).filter (·.time = first.time) = first :: same := by
  have hearlier : earlier.filter (·.time = first.time) = [] :=
    List.filter_eq_nil_iff.mpr fun a ha => by
      simpa using Timestamp.ne_of_lt (h.earlier a ha)
  have hsame : (first :: same).filter (·.time = first.time) = first :: same :=
    List.filter_eq_self.mpr fun a ha => decide_eq_true (h.time_eq ha)
  have hlater : later.filter (·.time = first.time) = [] :=
    List.filter_eq_nil_iff.mpr fun a ha => by
      simpa using (Timestamp.ne_of_lt (h.later a ha)).symm
  rw [List.filter_append, List.filter_append, hearlier, hsame, hlater, List.nil_append,
    List.append_nil]

/-- How many bars there are from the time on. -/
theorem countP_eq (h : Around first earlier same later) :
    (earlier ++ (first :: same ++ later)).countP (first.time ≤ ·.time) =
      (first :: same ++ later).length := by
  have hearlier : earlier.countP (first.time ≤ ·.time) = 0 :=
    List.countP_eq_zero.mpr fun a ha => by
      simpa using Timestamp.not_le.mpr (h.earlier a ha)
  have hfrom : (first :: same ++ later).countP (first.time ≤ ·.time) =
      (first :: same ++ later).length :=
    List.countP_eq_length.mpr fun a ha => decide_eq_true (h.le_of_mem ha)
  rw [List.countP_append, hearlier, hfrom, Nat.zero_add]

/-- What is kept of bars of the time and what is later: the first of them, and as much of what is
later as without them. -/
theorem collapse_from (h : Around first earlier same later) {bar : Bar} {rest : List Bar}
    (hbars : bar :: rest ⊆ first :: same) :
    collapseByTime (bar :: rest ++ later) = bar :: collapseByTime later := by
  have htime : ∀ a ∈ bar :: rest, a.time = first.time := fun a ha => h.time_eq (hbars ha)
  rw [collapseByTime_append, collapseByTime_same, List.singleton_append]
  · intro a ha
    rw [htime a (List.mem_cons_of_mem _ ha), htime bar List.mem_cons_self]
  · intro a ha b hb
    rw [htime a ha]
    exact (Timestamp.ne_of_lt (h.later b hb)).symm

/-- What is kept of some of what is earlier and all from the bar on. -/
theorem collapse (h : Around first earlier same later) {part : List Bar} (hpart : part ⊆ earlier) :
    collapseByTime (part ++ (first :: same ++ later)) =
      collapseByTime part ++ first :: collapseByTime later := by
  rw [collapseByTime_append, h.collapse_from (fun _ => id)]
  intro a ha b hb
  have hlt := Timestamp.lt_of_lt_of_le (h.earlier a (hpart ha)) (h.le_of_mem hb)
  exact (Timestamp.ne_of_lt hlt).symm

/-- A window that starts with the bar holds what is kept from it on, and nothing earlier is left out
unless the window is full. -/
theorem window_eq (h : Around first earlier same later) {limit : Nat}
    (hord : (collapseByTime (earlier ++ (first :: same ++ later))).Pairwise (·.time < ·.time))
    (hstart : (trailing limit
      (collapseByTime (earlier ++ (first :: same ++ later)))).head? = some first) :
    trailing limit (collapseByTime (earlier ++ (first :: same ++ later))) =
        first :: collapseByTime later ∧
      (first :: collapseByTime later).length ≤ limit ∧
      (collapseByTime earlier = [] ∨ limit = (first :: collapseByTime later).length) := by
  rw [h.collapse (fun _ => id)] at hord hstart ⊢
  have hplace : (collapseByTime earlier ++ first :: collapseByTime later).length - limit =
      (collapseByTime earlier).length := by
    rw [trailing, List.head?_drop] at hstart
    have hat : (collapseByTime earlier ++ first :: collapseByTime later)[
        (collapseByTime earlier).length]? = some first := by
      rw [List.getElem?_append_right (Nat.le_refl _), Nat.sub_self, List.getElem?_cons_zero]
    rw [← hstart] at hat
    exact ((List.getElem?_inj (by simp) (nodup_times hord).of_map).mp hat).symm
  refine ⟨by rw [trailing, hplace, List.drop_left], ?_, ?_⟩
  · rw [List.length_append] at hplace
    omega
  · rw [List.length_append, List.length_cons] at hplace
    rw [← List.length_eq_zero_iff, List.length_cons]
    omega

/-- **Where a cut leaves a window alone.** A window that starts with the bar comes out of the last
`fetched` bars of a series exactly when the first of them that is of the bar's time equals it. -/
theorem window_cut_iff (h : Around first earlier same later) {limit : Nat} (fetched : Nat)
    (hord : (collapseByTime (earlier ++ (first :: same ++ later))).Pairwise (·.time < ·.time))
    (hstart : (trailing limit
      (collapseByTime (earlier ++ (first :: same ++ later)))).head? = some first) :
    trailing limit (collapseByTime (trailing fetched (earlier ++ (first :: same ++ later)))) =
        trailing limit (collapseByTime (earlier ++ (first :: same ++ later))) ↔
      (first :: same)[(first :: same ++ later).length - fetched]? = some first := by
  obtain ⟨hwindow, hlength, hfull⟩ := h.window_eq hord hstart
  rw [hwindow]
  by_cases hall : (first :: same ++ later).length ≤ fetched
  · -- Everything from the bar on is fetched, and what comes with it falls out of the window again.
    have hpart : trailing (fetched - (first :: same ++ later).length) earlier ⊆ earlier :=
      List.drop_subset _ _
    rw [Nat.sub_eq_zero_of_le hall, trailing_append_of_length_le hall, h.collapse hpart]
    simp only [List.getElem?_cons_zero, iff_true]
    rcases hfull with hnil | hlimit
    · obtain rfl := collapseByTime_eq_nil_iff.mp hnil
      obtain hnone := List.subset_nil.mp hpart
      rw [hnone, hnil, List.nil_append, trailing_of_length_le hlength]
    · rw [trailing_append hlimit.le, trailing_of_length_le hlimit.ge]
  · have hfetched : trailing fetched (first :: same ++ later) =
        (first :: same ++ later).drop ((first :: same ++ later).length - fetched) := rfl
    rw [trailing_append (Nat.le_of_not_le hall), hfetched]
    generalize (first :: same ++ later).length - fetched = cut
    by_cases hcut : cut < (first :: same).length
    · -- The cut falls among the bars of the time.
      have hkept : collapseByTime ((first :: same ++ later).drop cut) =
          (first :: same)[cut] :: collapseByTime later := by
        rw [List.drop_append_of_le_length hcut.le, List.drop_eq_getElem_cons hcut]
        refine h.collapse_from ?_
        rw [← List.drop_eq_getElem_cons hcut]
        exact List.drop_subset _ _
      have hshort : ((first :: same)[cut] :: collapseByTime later).length ≤ limit := hlength
      rw [hkept, trailing_of_length_le hshort, List.getElem?_eq_getElem hcut]
      simp
    · -- The cut falls behind them, and what starts the window is lost.
      rw [List.drop_append, List.drop_eq_nil_of_le (Nat.le_of_not_lt hcut), List.nil_append,
        List.getElem?_eq_none (Nat.le_of_not_lt hcut)]
      refine iff_of_false (fun he => ?_) nofun
      have hmem : first ∈ trailing limit
          (collapseByTime (later.drop (cut - (first :: same).length))) := by
        rw [he]
        exact List.mem_cons_self
      have hlater := List.mem_of_mem_drop (mem_of_mem_collapseByTime (List.mem_of_mem_drop hmem))
      exact Timestamp.lt_irrefl _ (h.later first hlater)

end Around

/-- A series in which every time comes up at most so often is at most so many times as long as what
is kept of it. -/
theorem length_le_of_replays {series : List Bar} {times : Nat}
    (h : series.Pairwise (·.time ≤ ·.time))
    (hreplays : ∀ time, series.countP (·.time = time) ≤ times) :
    series.length ≤ times * (collapseByTime series).length := by
  induction hlength : series.length using Nat.strong_induction_on generalizing series with
  | _ n ih =>
      cases series with
      | nil => simp [← hlength]
      | cons first rest =>
          obtain ⟨earlier, same, later, heq, haround⟩ : ∃ earlier same later,
              first :: rest = earlier ++ (first :: same ++ later) ∧
                Around first earlier same later :=
            exists_around h (by simp)
          rw [heq] at h hreplays hlength ⊢
          have hpart : ∀ part : List Bar, part.Sublist (earlier ++ (first :: same ++ later)) →
              part.length < n → part.length ≤ times * (collapseByTime part).length :=
            fun part hsub hlt => ih _ hlt (h.sublist hsub)
              (fun time => (hsub.countP_le).trans (hreplays time)) rfl
          have hsame : (first :: same).length ≤ times := by
            rw [← haround.filter_eq, ← List.countP_eq_length_filter]
            exact hreplays first.time
          simp only [List.length_append, List.length_cons] at hlength hsame
          have hearlier := hpart earlier (List.sublist_append_left _ _) (by omega)
          have hlater := hpart later ((List.sublist_append_right _ _).trans
            (List.sublist_append_right _ _)) (by omega)
          rw [haround.collapse (fun _ => id), List.length_append, List.length_cons, Nat.mul_add,
            Nat.mul_add]
          omega

end MarketSignals
