import MarketSignals.Proofs.Float.Bounds
import MarketSignals.Proofs.Indicator.FullHistory

/-!
# Places in a range

Where the last close of a window lies between the lowest and the highest price of the window, its
place is from zero to a hundred per cent: rounding keeps the order, so the rounded part of the range
is no more than the rounded range, and their quotient no more than one. The window does not see to it
that the close lies there. Bars do, whose closes lie between their own low and high.

## Main results

* `max?_spec`, `min?_spec`: extremes are among the numbers and beyond all of them.
* `exists_percentK`, `exists_percentR`: the places of a close that lies in the range.
* `Ranged.close_between`: a window of bars whose closes lie in their own ranges is such a window.
-/

namespace MarketSignals

open Binary64

/-! ### Extremes -/

namespace Series

/-- The end of a fold that selects one of two, and one that both are related to. -/
theorem foldl_select_spec {α : Type} {select : α → α → α} (rel : α → α → Prop) (good : α → Prop)
    (hrefl : ∀ a, good a → rel a a)
    (htrans : ∀ a b c, good a → good b → good c → rel a b → rel b c → rel a c)
    (hselect : ∀ a b, good a → good b →
      (select a b = a ∨ select a b = b) ∧ rel a (select a b) ∧ rel b (select a b))
    {first : α} {rest : List α} (hgood : ∀ a ∈ first :: rest, good a) :
    rest.foldl select first ∈ first :: rest ∧
      ∀ a ∈ first :: rest, rel a (rest.foldl select first) := by
  induction rest generalizing first with
  | nil =>
      refine ⟨List.mem_singleton_self first, fun a ha => ?_⟩
      rw [List.mem_singleton.mp ha]
      exact hrefl first (hgood first (List.mem_singleton_self first))
  | cons second rest ih =>
      obtain ⟨hfirst, hsecond, hrest⟩ :
          good first ∧ good second ∧ ∀ a ∈ rest, good a := by simpa using hgood
      obtain ⟨hone, hleft, hright⟩ := hselect first second hfirst hsecond
      have hselected : good (select first second) := by
        rcases hone with h | h <;> rwa [h]
      obtain ⟨hmem, hall⟩ := ih
        (List.forall_mem_cons.mpr ⟨hselected, hrest⟩)
      rw [List.foldl_cons]
      have hend : good (rest.foldl select (select first second)) := by
        rcases List.mem_cons.mp hmem with h | h
        · rwa [h]
        · exact hrest _ h
      have hbeyond := hall _ List.mem_cons_self
      refine ⟨?_, fun a ha => ?_⟩
      · rcases List.mem_cons.mp hmem with h | h
        · rw [h]
          rcases hone with h' | h' <;> simp [h']
        · exact List.mem_cons_of_mem _ (List.mem_cons_of_mem _ h)
      · rcases List.mem_cons.mp ha with rfl | ha
        · exact htrans _ _ _ hfirst hselected hend hleft hbeyond
        rcases List.mem_cons.mp ha with rfl | ha
        · exact htrans _ _ _ hsecond hselected hend hright hbeyond
        · exact hall a (List.mem_cons_of_mem _ ha)

theorem larger_spec {x y : Float} (hx : x.isFinite = true) (hy : y.isFinite = true) :
    (larger x y = x ∨ larger x y = y) ∧ x ≤ larger x y ∧ y ≤ larger x y := by
  have hnan : ¬ y.isNaN = true := by rw [(denotes_toReal hy).isNaN]; exact Bool.false_ne_true
  rw [larger, if_neg hnan]
  split_ifs with hlt
  · exact ⟨.inl rfl, le_refl_of_finite hx, le_of_lt_of_finite hy hx hlt⟩
  · exact ⟨.inr rfl, le_of_not_lt hy hx hlt, le_refl_of_finite hy⟩

theorem smaller_spec {x y : Float} (hx : x.isFinite = true) (hy : y.isFinite = true) :
    (smaller x y = x ∨ smaller x y = y) ∧ smaller x y ≤ x ∧ smaller x y ≤ y := by
  have hnan : ¬ y.isNaN = true := by rw [(denotes_toReal hy).isNaN]; exact Bool.false_ne_true
  rw [smaller, if_neg hnan]
  split_ifs with hlt
  · exact ⟨.inl rfl, le_refl_of_finite hx, le_of_lt_of_finite hx hy hlt⟩
  · exact ⟨.inr rfl, le_of_not_lt hx hy hlt, le_refl_of_finite hy⟩

variable {values : List Float} {extreme : Float}

/-- The largest of finite numbers is one of them, and no less than any. -/
theorem max?_spec (hfinite : ∀ v ∈ values, v.isFinite = true) (h : max? values = some extreme) :
    extreme ∈ values ∧ ∀ v ∈ values, v ≤ extreme := by
  cases values with
  | nil => cases h
  | cons first rest =>
      obtain rfl := Option.some.inj h
      exact foldl_select_spec (fun x y => x ≤ y) (fun x => x.isFinite = true)
        (fun _ => le_refl_of_finite) (fun _ _ _ => le_trans_of_finite) (fun _ _ => larger_spec)
        hfinite

/-- The smallest of finite numbers is one of them, and no more than any. -/
theorem min?_spec (hfinite : ∀ v ∈ values, v.isFinite = true) (h : min? values = some extreme) :
    extreme ∈ values ∧ ∀ v ∈ values, extreme ≤ v := by
  cases values with
  | nil => cases h
  | cons first rest =>
      obtain rfl := Option.some.inj h
      exact foldl_select_spec (fun x y => y ≤ x) (fun x => x.isFinite = true)
        (fun _ => le_refl_of_finite)
        (fun _ _ _ ha hb hc hab hbc => le_trans_of_finite hc hb ha hbc hab)
        (fun _ _ => smaller_spec) hfinite

end Series

/-! ### Bars of bounded prices -/

/-- The prices of a bar that indicators read are at most a power of two. -/
structure Bar.Sized (k : ℕ) (bar : Bar) : Prop where
  high : AtMost k bar.high
  low : AtMost k bar.low
  close : AtMost k bar.close

/-- The close of a bar lies between its low and its high. -/
def Bar.Ordered (bar : Bar) : Prop :=
  bar.low ≤ bar.close ∧ bar.close ≤ bar.high

instance (bar : Bar) : Decidable bar.Ordered :=
  inferInstanceAs (Decidable (bar.low ≤ bar.close ∧ bar.close ≤ bar.high))

namespace Indicator

open Series

variable {k : ℕ} {window : List Bar} {highest lowest close : Float}

/-- The prices of a range are bounded as those of its bars. -/
theorem Ranged.sized (h : Ranged window highest lowest close)
    (hsized : ∀ bar ∈ window, bar.Sized k) :
    AtMost k highest ∧ AtMost k lowest ∧ AtMost k close := by
  have hhighs : ∀ v ∈ window.map Bar.high, AtMost k v :=
    List.forall_mem_map.mpr fun bar hbar => (hsized bar hbar).high
  have hlows : ∀ v ∈ window.map Bar.low, AtMost k v :=
    List.forall_mem_map.mpr fun bar hbar => (hsized bar hbar).low
  obtain ⟨last, hlast, rfl⟩ := Option.map_eq_some_iff.mp h.close
  exact ⟨hhighs _ (max?_spec (fun v hv => (hhighs v hv).finite) h.highest).1,
    hlows _ (min?_spec (fun v hv => (hlows v hv).finite) h.lowest).1,
    (hsized last (List.mem_of_getLast? hlast)).close⟩

/-- The close of a range lies in it where it lies in the range of its own bar. -/
theorem Ranged.close_between (h : Ranged window highest lowest close)
    (hsized : ∀ bar ∈ window, bar.Sized k) (hordered : ∀ bar ∈ window, bar.Ordered) :
    lowest ≤ close ∧ close ≤ highest := by
  obtain ⟨hhighest, hlowest, hclose⟩ := h.sized hsized
  obtain ⟨last, hlast, rfl⟩ := Option.map_eq_some_iff.mp h.close
  have hmem := List.mem_of_getLast? hlast
  obtain ⟨hlow, hhigh⟩ := hordered last hmem
  have hhighs : ∀ v ∈ window.map Bar.high, v.isFinite = true :=
    List.forall_mem_map.mpr fun bar hbar => (hsized bar hbar).high.finite
  have hlows : ∀ v ∈ window.map Bar.low, v.isFinite = true :=
    List.forall_mem_map.mpr fun bar hbar => (hsized bar hbar).low.finite
  have habove := (max?_spec hhighs h.highest).2 _ (List.mem_map_of_mem hmem)
  have hbelow := (min?_spec hlows h.lowest).2 _ (List.mem_map_of_mem hmem)
  have hsize := hsized last hmem
  exact ⟨le_trans_of_finite hlowest.finite hsize.low.finite hclose.finite hbelow hlow,
    le_trans_of_finite hclose.finite hsize.high.finite hhighest.finite hhigh habove⟩

/-! ### Places -/

/-- A part of a range, by the range: from zero to one. -/
theorem exists_part {x y part : Float} {r s t : ℝ} (hx : Denotes x r) (hy : Denotes y s)
    (hpart : Denotes part (rnd t)) (hlow : 0 ≤ t) (hhigh : t ≤ r - s) (hrange : InRange (r - s))
    (hne : ¬ (x - y == 0) = true) : ∃ q, Denotes (part / (x - y)) q ∧ 0 ≤ q ∧ q ≤ 1 := by
  have hwhole := hx.sub hy hrange
  have hpos : 0 < rnd (r - s) := by
    refine lt_of_le_of_ne (rnd_nonneg (hlow.trans hhigh)) fun heq => hne ?_
    exact (hwhole.beq_iff denotes_zero).mpr heq.symm
  obtain ⟨hinRange, hbelow, habove⟩ := between_rnd denotes_zero.exact denotes_one.exact
    (div_nonneg (rnd_nonneg hlow) hpos.le) ((div_le_one hpos).mpr (rnd_mono hhigh))
  exact ⟨_, hpart.div hwhole hpos.ne' hinRange, hbelow, habove⟩

/-- The difference of two prices. -/
theorem exists_sub {x y : Float} {r s : ℝ} (hx : Denotes x r) (hy : Denotes y s)
    (hr : AtMost k x) (hs : AtMost k y) (hk : k + 1 < 1024) :
    InRange (r - s) ∧ Denotes (x - y) (rnd (r - s)) := by
  obtain ⟨r', hx', hr⟩ := hr
  obtain ⟨s', hy', hs⟩ := hs
  obtain rfl := hx.unique hx'
  obtain rfl := hy.unique hy'
  have hsize : |r - s| ≤ 2 ^ (k + 1) := by
    rw [pow_succ]
    linarith [abs_sub r s]
  have hrange := (inRange_of_abs_le hsize hk).1
  exact ⟨hrange, hx.sub hy hrange⟩

/-- The parts of a range below and above a close that lies in it. -/
theorem Ranged.exists_parts (h : Ranged window highest lowest close)
    (hsized : ∀ bar ∈ window, bar.Sized k) (hk : k + 1 < 1024) (hlow : lowest ≤ close)
    (hhigh : close ≤ highest) (hne : ¬ (highest - lowest == 0) = true) :
    (∃ q, Denotes ((close - lowest) / (highest - lowest)) q ∧ 0 ≤ q ∧ q ≤ 1) ∧
      ∃ q, Denotes ((highest - close) / (highest - lowest)) q ∧ 0 ≤ q ∧ q ≤ 1 := by
  obtain ⟨hhighest, hlowest, hclose⟩ := h.sized hsized
  have dhighest := denotes_toReal hhighest.finite
  have dlowest := denotes_toReal hlowest.finite
  have dclose := denotes_toReal hclose.finite
  have hl := (dlowest.le_iff dclose).mp hlow
  have hh := (dclose.le_iff dhighest).mp hhigh
  obtain ⟨hrange, -⟩ := exists_sub dhighest dlowest hhighest hlowest hk
  obtain ⟨-, hbelow⟩ := exists_sub dclose dlowest hclose hlowest hk
  obtain ⟨-, habove⟩ := exists_sub dhighest dclose hhighest hclose hk
  exact ⟨exists_part dhighest dlowest hbelow (by linarith) (by linarith) hrange hne,
    exists_part dhighest dlowest habove (by linarith) (by linarith) hrange hne⟩

/-- The place of a close that lies in the range is from zero to a hundred. -/
theorem exists_percentK (h : Ranged window highest lowest close)
    (hsized : ∀ bar ∈ window, bar.Sized k) (hk : k + 1 < 1024) (hlow : lowest ≤ close)
    (hhigh : close ≤ highest) : ∃ r, Denotes (percentK window) r ∧ 0 ≤ r ∧ r ≤ 100 := by
  rw [percentK_of_ranged h]
  split_ifs with hflat
  · exact ⟨50, denotes_natCast (n := 50) (by norm_num), by norm_num, by norm_num⟩
  obtain ⟨⟨q, hq, hnonneg, hone⟩, -⟩ := h.exists_parts hsized hk hlow hhigh hflat
  obtain ⟨hproduct, hbelow, habove⟩ := between_rnd (r := q * 100) denotes_zero.exact
    denotes_hundred.exact (by positivity) (mul_le_of_le_one_left (by positivity) hone)
  exact ⟨_, hq.mul denotes_hundred hproduct, hbelow, habove⟩

/-- The place below the top of a close that lies in the range is from zero down to minus a
hundred. -/
theorem exists_percentR (h : Ranged window highest lowest close)
    (hsized : ∀ bar ∈ window, bar.Sized k) (hk : k + 1 < 1024) (hlow : lowest ≤ close)
    (hhigh : close ≤ highest) : ∃ r, Denotes (percentR window) r ∧ -100 ≤ r ∧ r ≤ 0 := by
  rw [percentR_of_ranged h]
  split_ifs with hflat
  · exact ⟨-50, (denotes_natCast (n := 50) (by norm_num)).neg, by norm_num, by norm_num⟩
  obtain ⟨-, q, hq, hnonneg, hone⟩ := h.exists_parts hsized hk hlow hhigh hflat
  have hlowest : Denotes (-100 : Float) (-100) := denotes_hundred.neg
  obtain ⟨hproduct, hbelow, habove⟩ := between_rnd (r := q * -100) hlowest.exact
    denotes_zero.exact (by linarith) (by linarith)
  exact ⟨_, hq.mul hlowest hproduct, hbelow, habove⟩

end Indicator

end MarketSignals
