import MarketSignals.Proofs.Float.Arithmetic

/-!
# Bounds of floats

How large the results of operations can become. A bound is a power of two, since that is exact:
adding two numbers raises it by one place, multiplying them adds the places, and a mean does not
raise it at all.

That a mean stays within the bound of its numbers takes more than rounding that keeps the order, as a
sum of very many numbers is no longer exact. Such a sum stops growing: at `2 ^ 53` times the bound
another number is at most half a unit in the last place, and the tie goes to the even count that the
sum already is.

## Main results

* `AtMost.add`, `AtMost.sub`, `AtMost.mul`: how bounds grow.
* `exists_sum`: a sum is at most as many bounds as it has numbers, and at most `2 ^ 53` of them.
* `AtMost.mean`: a mean is within the bound of its numbers.
-/

namespace MarketSignals.Binary64

open Series

/-! ### Bounds that are powers of two -/

/-- A float denotes a number of at most a power of two. -/
inductive AtMost (k : ℕ) (x : Float) : Prop
  | of_abs_le (r : ℝ) (denotes : Denotes x r) (abs_le : |r| ≤ 2 ^ k)

section

variable {j k : ℕ} {x y : Float} {r : ℝ}

theorem representable_two_pow (k : ℕ) : Representable (2 ^ k) := by
  rw [← zpow_natCast]
  exact representable_zpow (by omega)

theorem two_pow_lt (h : k < 1024) : (2 : ℝ) ^ k < 2 ^ (1024 : ℤ) := by
  rw [← zpow_natCast]
  exact zpow_lt_zpow_right₀ one_lt_two (by omega)

/-- A number within a bound is in range, and so is what it is rounded to. -/
theorem inRange_of_abs_le (h : |r| ≤ 2 ^ k) (hk : k < 1024) : InRange r ∧ |rnd r| ≤ 2 ^ k :=
  have hle := abs_rnd_le (representable_two_pow k) h
  ⟨⟨hle.trans_lt (two_pow_lt hk)⟩, hle⟩

theorem AtMost.exists (h : AtMost k x) : ∃ r, Denotes x r ∧ |r| ≤ 2 ^ k := by
  obtain ⟨r, hx, hr⟩ := h
  exact ⟨r, hx, hr⟩

theorem AtMost.finite (h : AtMost k x) : x.isFinite = true := by
  obtain ⟨r, hx, -⟩ := h
  exact hx.finite

theorem AtMost.mono (h : AtMost j x) (hjk : j ≤ k) : AtMost k x := by
  obtain ⟨r, hx, hr⟩ := h
  exact ⟨r, hx, hr.trans (pow_le_pow_right₀ one_le_two hjk)⟩

theorem AtMost.neg (h : AtMost k x) : AtMost k (-x) := by
  obtain ⟨r, hx, hr⟩ := h
  exact ⟨-r, hx.neg, by rwa [abs_neg]⟩

theorem AtMost.abs (h : AtMost k x) : AtMost k x.abs := by
  obtain ⟨r, hx, hr⟩ := h
  exact ⟨|r|, hx.abs, by rwa [abs_abs]⟩

theorem AtMost.add (hx : AtMost k x) (hy : AtMost k y) (hk : k + 1 < 1024) :
    AtMost (k + 1) (x + y) := by
  obtain ⟨r, hx, hr⟩ := hx
  obtain ⟨s, hy, hs⟩ := hy
  have hsum : |r + s| ≤ 2 ^ (k + 1) := by
    rw [pow_succ]
    linarith [abs_add_le r s]
  obtain ⟨hrange, hle⟩ := inRange_of_abs_le hsum hk
  exact ⟨_, hx.add hy hrange, hle⟩

theorem AtMost.sub (hx : AtMost k x) (hy : AtMost k y) (hk : k + 1 < 1024) :
    AtMost (k + 1) (x - y) := by
  obtain ⟨r, hx, hr⟩ := hx
  obtain ⟨s, hy, hs⟩ := hy
  have hdifference : |r - s| ≤ 2 ^ (k + 1) := by
    rw [pow_succ]
    linarith [abs_sub r s]
  obtain ⟨hrange, hle⟩ := inRange_of_abs_le hdifference hk
  exact ⟨_, hx.sub hy hrange, hle⟩

theorem AtMost.mul (hx : AtMost j x) (hy : AtMost k y) (hk : j + k < 1024) :
    AtMost (j + k) (x * y) := by
  obtain ⟨r, hx, hr⟩ := hx
  obtain ⟨s, hy, hs⟩ := hy
  have hproduct : |r * s| ≤ 2 ^ (j + k) := by
    rw [abs_mul, pow_add]
    exact mul_le_mul hr hs (abs_nonneg s) (by positivity)
  obtain ⟨hrange, hle⟩ := inRange_of_abs_le hproduct hk
  exact ⟨_, hx.mul hy hrange, hle⟩

/-- One of two floats is within the bound of both. -/
theorem AtMost.larger (hx : AtMost k x) (hy : AtMost k y) : AtMost k (larger x y) := by
  rw [Series.larger]
  split_ifs <;> assumption

theorem AtMost.zero (k : ℕ) : AtMost k 0 :=
  ⟨0, ⟨by decide, rfl⟩, by rw [abs_zero]; positivity⟩

/-- A count as a float. -/
theorem AtMost.ofNat {n : ℕ} (hn : n ≤ 2 ^ k) (hk : k < 1024) : AtMost k (Float.ofNat n) := by
  have hsize : |(n : ℝ)| ≤ 2 ^ k := by
    rw [abs_of_nonneg (Nat.cast_nonneg n)]
    exact_mod_cast hn
  obtain ⟨hrange, hle⟩ := inRange_of_abs_le hsize hk
  exact ⟨_, denotes_ofNat hrange, hle⟩

/-- A count of 64 bits as a float, which is at least one where the count is. -/
theorem denotes_count {n : ℕ} (hpos : 0 < n) (hn : n < 2 ^ 64) :
    Denotes (Float.ofNat n) (rnd n) ∧ 1 ≤ rnd n := by
  have hsize : |(n : ℝ)| ≤ 2 ^ 64 := by
    rw [abs_of_nonneg (Nat.cast_nonneg n)]
    exact_mod_cast hn.le
  refine ⟨denotes_ofNat (inRange_of_abs_le hsize (by norm_num)).1, ?_⟩
  rw [← rnd_one]
  exact rnd_mono (by exact_mod_cast hpos)

/-- What is between a float and its negative. -/
theorem atMost_of_abs_le (hx : x.isFinite = true) (hy : AtMost k y) (h : x.abs ≤ y) :
    AtMost k x := by
  obtain ⟨s, hy, hs⟩ := hy
  have hle := ((denotes_toReal hx).abs.le_iff hy).mp h
  exact ⟨_, denotes_toReal hx, hle.trans ((le_abs_self s).trans hs)⟩

end

/-! ### Sums -/

section

variable {k : ℕ}

/-- Half a unit more than `2 ^ 53` times a power of two is rounded off. -/
theorem rnd_carry {e : ℤ} (he : -1074 ≤ e) : rnd ((2 ^ 53 + 1) * 2 ^ e) = 2 ^ 53 * 2 ^ e := by
  have hunit : (0 : ℝ) < 2 ^ e := zpow_pos two_pos e
  have hpos : (0 : ℝ) < (2 ^ 53 + 1) * 2 ^ e := by positivity
  have hquantum : quantum ((2 ^ 53 + 1) * 2 ^ e) = e + 1 := by
    refine le_antisymm (quantum_le_of_abs_lt hpos.ne' (by omega) ?_) (le_quantum_of_le_abs ?_)
    · rw [abs_of_pos hpos, show e + 1 + 53 = 54 + e by ring, zpow_add₀ two_ne_zero]
      exact mul_lt_mul_of_pos_right (by norm_num) hunit
    · rw [abs_of_pos hpos, show e + 1 + 52 = 53 + e by ring, zpow_add₀ two_ne_zero]
      exact mul_le_mul_of_nonneg_right (by norm_num) hunit.le
  have hcount : ((2 ^ 52 : ℤ) : ℝ) * 2 ^ (e + 1) = 2 ^ 53 * 2 ^ e := by
    rw [zpow_add_one₀ two_ne_zero]
    push_cast
    ring
  rw [← hcount, ← hquantum]
  refine rnd_eq_of_even (by decide) ?_
  have hover : (2 ^ 53 + 1) * (2 : ℝ) ^ e - 2 ^ 53 * 2 ^ e = 2 ^ e := by ring
  rw [hquantum, hcount, hover, abs_of_pos hunit, zpow_add_one₀ two_ne_zero]
  linarith

/-- A sum of numbers within a bound grows by the bound at most, and not beyond `2 ^ 53` times it. -/
theorem abs_rnd_add_le {n : ℕ} {total r : ℝ} (htotal : |total| ≤ (min n (2 ^ 53) : ℕ) * 2 ^ k)
    (hr : |r| ≤ 2 ^ k) : |rnd (total + r)| ≤ (min (n + 1) (2 ^ 53) : ℕ) * 2 ^ k := by
  have hsum := (abs_add_le total r).trans (add_le_add htotal hr)
  rw [← zpow_natCast] at hsum ⊢
  rcases Nat.lt_or_ge n (2 ^ 53) with hfew | hmany
  · rw [Nat.min_eq_left hfew]
    rw [Nat.min_eq_left hfew.le] at hsum
    refine abs_rnd_le (representable_mul_zpow hfew (by omega)) (hsum.trans_eq ?_)
    push_cast
    ring
  · rw [Nat.min_eq_right (by omega)]
    rw [Nat.min_eq_right hmany] at hsum
    have hfull : |total + r| ≤ (2 ^ 53 + 1) * 2 ^ (k : ℤ) := hsum.trans_eq (by push_cast; ring)
    rw [abs_rnd]
    refine (rnd_mono hfull).trans_eq ?_
    rw [rnd_carry (by omega)]
    norm_num

/-- A sum at `2 ^ 53` times the bound of its numbers does not grow. -/
theorem abs_rnd_add_le_full {total r : ℝ} (htotal : |total| ≤ 2 ^ (k + 53)) (hr : |r| ≤ 2 ^ k) :
    |rnd (total + r)| ≤ 2 ^ (k + 53) := by
  have hfull : ((2 ^ 53 : ℕ) : ℝ) * 2 ^ k = 2 ^ (k + 53) := by
    push_cast
    ring
  have hcapped : |total| ≤ (min (2 ^ 53) (2 ^ 53) : ℕ) * 2 ^ k := by rwa [Nat.min_self, hfull]
  have hnext := abs_rnd_add_le hcapped hr
  rwa [Nat.min_eq_right (Nat.le_succ _), hfull] at hnext

/-- The bound of a sum is in range. -/
theorem min_mul_two_pow_le (n : ℕ) : ((min n (2 ^ 53) : ℕ) : ℝ) * 2 ^ k ≤ 2 ^ (53 + k) := by
  rw [pow_add]
  have hle : ((min n (2 ^ 53) : ℕ) : ℝ) ≤ 2 ^ 53 := by exact_mod_cast Nat.min_le_right n (2 ^ 53)
  exact mul_le_mul_of_nonneg_right hle (by positivity)

/-- What one more number preserves holds of a whole sum. The invariant may count the numbers. -/
theorem exists_foldl_add {Term : ℝ → Prop} {Total : ℕ → ℝ → Prop} {values : List Float} {n : ℕ}
    (hstep : ∀ m < n + values.length, ∀ total r, Total m total → Term r →
      InRange (total + r) ∧ Total (m + 1) (rnd (total + r)))
    (hvalues : ∀ v ∈ values, ∃ r, Denotes v r ∧ Term r)
    {start : Float} {total : ℝ} (hstart : Denotes start total) (htotal : Total n total) :
    ∃ r, Denotes (values.foldl (· + ·) start) r ∧ Total (n + values.length) r := by
  induction values generalizing n start total with
  | nil => exact ⟨total, hstart, htotal⟩
  | cons v rest ih =>
      rw [List.length_cons, Nat.add_comm rest.length, ← Nat.add_assoc] at hstep ⊢
      obtain ⟨⟨r, hv, hr⟩, hrest⟩ := List.forall_mem_cons.mp hvalues
      obtain ⟨hrange, hnext⟩ := hstep n (by omega) total r htotal hr
      exact ih hstep hrest (hstart.add hv hrange) hnext

/-- What one more number preserves, and what zero satisfies, holds of a sum. -/
theorem exists_sum (Term : ℝ → Prop) (Total : ℕ → ℝ → Prop) {values : List Float}
    (hstep : ∀ n < values.length, ∀ total r, Total n total → Term r →
      InRange (total + r) ∧ Total (n + 1) (rnd (total + r)))
    (hvalues : ∀ v ∈ values, ∃ r, Denotes v r ∧ Term r) (hzero : Total 0 0) :
    ∃ r, Denotes (sum values) r ∧ Total values.length r := by
  have hstart : Denotes (-0.0) 0 := ⟨by decide, rfl⟩
  rw [← Nat.zero_add values.length] at hstep ⊢
  exact exists_foldl_add hstep hvalues hstart hzero

/-- A sum is at most as many bounds as it has numbers, and at most `2 ^ 53` of them. -/
theorem exists_sum_atMost {values : List Float} (hvalues : ∀ v ∈ values, AtMost k v)
    (hk : 53 + k < 1024) :
    ∃ r, Denotes (sum values) r ∧ |r| ≤ (min values.length (2 ^ 53) : ℕ) * 2 ^ k := by
  refine exists_sum (fun r => |r| ≤ 2 ^ k)
    (fun n total => |total| ≤ (min n (2 ^ 53) : ℕ) * 2 ^ k) ?_ (fun v hv => (hvalues v hv).exists)
    (by simp)
  intro n _ total r htotal hr
  have hnext := abs_rnd_add_le htotal hr
  exact ⟨⟨(hnext.trans (min_mul_two_pow_le (n + 1))).trans_lt (two_pow_lt hk)⟩, hnext⟩

/-- A sum of numbers that are not negative is not negative. -/
theorem exists_sum_nonneg {values : List Float}
    (hvalues : ∀ v ∈ values, ∃ r, Denotes v r ∧ 0 ≤ r ∧ |r| ≤ 2 ^ k) (hk : 53 + k < 1024) :
    ∃ r, Denotes (sum values) r ∧ 0 ≤ r ∧ |r| ≤ (min values.length (2 ^ 53) : ℕ) * 2 ^ k := by
  refine exists_sum (fun r => 0 ≤ r ∧ |r| ≤ 2 ^ k)
    (fun n total => 0 ≤ total ∧ |total| ≤ (min n (2 ^ 53) : ℕ) * 2 ^ k) ?_ hvalues
    (by simp)
  rintro n - total r ⟨htotal, hsize⟩ ⟨hr, hle⟩
  have hnext := abs_rnd_add_le hsize hle
  exact ⟨⟨(hnext.trans (min_mul_two_pow_le (n + 1))).trans_lt (two_pow_lt hk)⟩,
    rnd_nonneg (add_nonneg htotal hr), hnext⟩

/-- A sum of numbers between two others, whose multiples are numbers of floats. -/
theorem exists_sum_between {values : List Float} {low high : ℝ}
    (hvalues : ∀ v ∈ values, ∃ r, Denotes v r ∧ low ≤ r ∧ r ≤ high)
    (hmultiples : ∀ n ≤ values.length, Exact (n * low) ∧ Exact (n * high)) :
    ∃ r, Denotes (sum values) r ∧ values.length * low ≤ r ∧ r ≤ values.length * high := by
  refine exists_sum (fun r => low ≤ r ∧ r ≤ high)
    (fun n total => n * low ≤ total ∧ total ≤ n * high) ?_ hvalues (by simp)
  rintro n hn total r ⟨hbelow, habove⟩ ⟨hlow, hhigh⟩
  obtain ⟨hexact, hexact'⟩ := hmultiples (n + 1) hn
  refine between_rnd hexact hexact' ?_ ?_ <;> push_cast <;> linarith

/-! ### Means -/

/-- A sum shared out among at least as many as it has numbers is within the bound of the numbers. -/
theorem exists_shared {x : Float} {total : ℝ} {m n : ℕ} (hsum : Denotes x total)
    (htotal : |total| ≤ (min m (2 ^ 53) : ℕ) * 2 ^ k) (hk : k < 1024) (hmn : m ≤ n) (hpos : 0 < n)
    (hn : n < 2 ^ 64) :
    ∃ r, Denotes (x / Float.ofNat n) r ∧ |r| ≤ 2 ^ k ∧ (0 ≤ total → 0 ≤ r) := by
  obtain ⟨hdenotes, hone⟩ := denotes_count hpos hn
  -- The float of the count is no less than the numbers that the total is at most.
  have hshare : ((min m (2 ^ 53) : ℕ) : ℝ) ≤ rnd n := by
    refine le_rnd (representable_natCast (Nat.min_le_right _ _)) ?_
    exact_mod_cast (Nat.min_le_left _ _).trans hmn
  have hquotient : |total / rnd n| ≤ 2 ^ k := by
    rw [abs_div, abs_of_pos (zero_lt_one.trans_le hone), div_le_iff₀ (zero_lt_one.trans_le hone),
      mul_comm]
    exact htotal.trans (mul_le_mul_of_nonneg_right hshare (by positivity))
  obtain ⟨hrange, hle⟩ := inRange_of_abs_le hquotient hk
  exact ⟨_, hsum.div hdenotes (zero_lt_one.trans_le hone).ne' hrange, hle,
    fun hnonneg => rnd_nonneg (div_nonneg hnonneg (zero_le_one.trans hone))⟩

theorem AtMost.shared {values : List Float} {n : ℕ} (hvalues : ∀ v ∈ values, AtMost k v)
    (hk : 53 + k < 1024) (hlength : values.length ≤ n) (hpos : 0 < n) (hn : n < 2 ^ 64) :
    AtMost k (sum values / Float.ofNat n) := by
  obtain ⟨total, hsum, htotal⟩ := exists_sum_atMost hvalues hk
  obtain ⟨r, hr, hle, -⟩ := exists_shared hsum htotal (by omega) hlength hpos hn
  exact ⟨r, hr, hle⟩

/-- A mean is between what its numbers are between. -/
theorem exists_mean_between {values : List Float} {low high : ℝ}
    (hvalues : ∀ v ∈ values, ∃ r, Denotes v r ∧ low ≤ r ∧ r ≤ high)
    (hmultiples : ∀ n ≤ values.length, Exact (n * low) ∧ Exact (n * high))
    (hpos : 0 < values.length) (hcount : values.length ≤ 2 ^ 53) :
    ∃ r, Denotes (mean values) r ∧ low ≤ r ∧ r ≤ high := by
  obtain ⟨total, hsum, hbelow, habove⟩ := exists_sum_between hvalues hmultiples
  have hsome : ¬ values.isEmpty = true := by
    rw [List.isEmpty_iff]
    exact List.length_pos_iff.mp hpos
  have hpos' : (0 : ℝ) < values.length := by exact_mod_cast hpos
  obtain ⟨hlow, hhigh⟩ := hmultiples 1 hpos
  rw [Nat.cast_one, one_mul] at hlow hhigh
  obtain ⟨hrange, hl, hh⟩ := between_rnd (r := total / values.length) hlow hhigh
    (by rwa [le_div_iff₀ hpos', mul_comm]) (by rwa [div_le_iff₀ hpos', mul_comm])
  rw [Series.mean, if_neg hsome]
  exact ⟨_, hsum.div (denotes_natCast hcount) hpos'.ne' hrange, hl, hh⟩

/-- **A mean is within the bound of its numbers.** -/
theorem AtMost.mean {values : List Float} (hvalues : ∀ v ∈ values, AtMost k v)
    (hk : 53 + k < 1024) (hn : values.length < 2 ^ 64) : AtMost k (mean values) := by
  rw [Series.mean]
  split_ifs with hempty
  · exact .zero k
  · have hpos : 0 < values.length := List.length_pos_iff.mpr fun hnil => hempty (by rw [hnil]; rfl)
    exact .shared hvalues hk le_rfl hpos hn

end

end MarketSignals.Binary64
