import MarketSignals.Proofs.Float.Bounds

/-!
# Floats that are not negative

A float that is not negative is a zero of either sign, a positive number or the positive infinity.
Sums of such floats stay so, however large they become, and so do shares of them; none of this asks
for a result in range. The only step that leads out is the quotient of two zeros or of two
infinities, which is no number.

## Main results

* `nonneg_iff`: which floats are not negative.
* `nonneg_sum`, `nonneg_shared`: sums and shares of floats that are not negative.
* `isNaN_div_iff`: a quotient by what is positive is a number unless both sides are infinite.
* `zero_div`: a zero shared out among what is positive is a zero.
-/

namespace MarketSignals.Binary64

open Float.Model Float.Model.UnpackedFloat

/-- A zero of either sign, a positive number or the positive infinity. -/
inductive NotNegative : UnpackedFloat → Prop
  | zero (s : Sign) : NotNegative (.zero s)
  | finite {m : Nat} {e : ℤ} {hm : 0 < m} (h : Canonical m e) :
      NotNegative (.finite .positive m e hm)
  | infinity : NotNegative (.infinity .positive)

variable {f g : UnpackedFloat}

/-! ### Unpacked floats -/

/-- A number that is not negative is no negative float. -/
theorem IsNumber.notNegative (h : IsNumber f) (hvalue : 0 ≤ value f) : NotNegative f := by
  cases h with
  | zero s => exact .zero s
  | @finite s m e hm h =>
      cases s with
      | positive => exact .finite h
      | negative =>
          have hneg : value (.finite .negative m e hm) < 0 :=
            neg_neg_of_pos (by positivity : (0 : ℝ) < m * 2 ^ e)
          exact absurd hvalue (not_le.mpr hneg)

theorem NotNegative.value_nonneg (h : NotNegative f) : 0 ≤ value f := by
  cases h with
  | zero | infinity => exact le_rfl
  | @finite m e hm h =>
      rw [value_finite, signed]
      positivity

/-- What is not negative is a number or an infinity. -/
theorem NotNegative.isNumber_or (h : NotNegative f) : IsNumber f ∨ f = .infinity .positive := by
  cases h with
  | zero s => exact .inl (.zero s)
  | finite h => exact .inl (.finite h)
  | infinity => exact .inr rfl

/-- Packing keeps what is not negative so, as what is too large becomes the positive infinity. -/
theorem NotNegative.unpack_pack (h : NotNegative f) :
    NotNegative (UnpackedFloat.unpack .binary64 (UnpackedFloat.pack .binary64 f)) := by
  rcases h.isNumber_or with hnumber | rfl
  · by_cases hsize : |value f| < 2 ^ (1024 : ℤ)
    · rwa [Binary64.unpack_pack hnumber hsize]
    · cases h with
      | infinity => exact .infinity
      | zero s => exact absurd (by rw [value_zero, abs_zero]; positivity) hsize
      | finite h =>
          rw [pack_of_large h (not_lt.mp hsize)]
          exact .infinity
  · exact .infinity

/-- The sum of two floats that are not negative is not negative. -/
theorem NotNegative.add (hf : NotNegative f) (hg : NotNegative g) :
    NotNegative (UnpackedFloat.add .binary64 f g) := by
  rcases hf.isNumber_or with hf' | rfl
  · rcases hg.isNumber_or with hg' | rfl
    · have hsum := rounded_add hf' hg'
      refine hsum.isNumber.notNegative ?_
      rw [hsum.value_eq]
      exact rnd_nonneg (add_nonneg hf.value_nonneg hg.value_nonneg)
    · cases hf' with
      | zero | finite => exact .infinity
  · cases hg with
    | zero | finite | infinity => exact .infinity

/-- What is not negative, shared out among a positive number, is not negative. -/
theorem NotNegative.div (hf : NotNegative f) (hg : IsNumber g) (hpos : 0 < value g) :
    NotNegative (UnpackedFloat.div .binary64 f g) := by
  rcases hf.isNumber_or with hf' | rfl
  · have hquotient := rounded_div hf' hg hpos.ne'
    refine hquotient.isNumber.notNegative ?_
    rw [hquotient.value_eq]
    exact rnd_nonneg (div_nonneg hf.value_nonneg hpos.le)
  · cases hg.notNegative hpos.le with
    | zero | infinity => exact absurd hpos (lt_irrefl _)
    | finite => exact .infinity

/-! ### Floats -/

section

variable {x y : Float}

theorem unpack_zero : (0 : Float).toModel.unpack = .zero .positive :=
  rfl

/-- **Which floats are not negative.** -/
theorem nonneg_iff : 0 ≤ x ↔ NotNegative x.toModel.unpack := by
  constructor
  · intro hx
    obtain ⟨-, hnumber, -⟩ := Series.le_iff_not_lt.mp hx
    rcases isExtended_unpack hnumber with hfinite | ⟨s, hs⟩
    · have dx := denotes_toReal hfinite.isFinite
      exact hfinite.notNegative ((denotes_zero.le_iff dx).mp hx)
    · obtain ⟨o, ho, hle⟩ := Series.le_iff_compare.mp hx
      rw [unpack_zero, hs] at ho
      rw [hs]
      cases s with
      | positive => exact .infinity
      | negative =>
          cases ho
          cases hle
  · intro hx
    rcases hx.isNumber_or with hfinite | hinfinite
    · exact (denotes_zero.le_iff (denotes_toReal hfinite.isFinite)).mpr hx.value_nonneg
    · refine Series.le_iff_compare.mpr ⟨.lt, ?_, rfl⟩
      rw [unpack_zero, hinfinite]
      rfl

/-- A float that is not negative denotes a number or is the positive infinity. -/
theorem finite_or_inf (hx : 0 ≤ x) : x.isFinite = true ∨ x = Float.inf := by
  rcases (nonneg_iff.mp hx).isNumber_or with hfinite | hinfinite
  · exact .inl hfinite.isFinite
  · exact .inr (eq_of_unpack_eq hinfinite)

theorem isNaN_of_nonneg (hx : 0 ≤ x) : x.isNaN = false :=
  (Series.le_iff_not_lt.mp hx).2.1

theorem nonneg_add (hx : 0 ≤ x) (hy : 0 ≤ y) : 0 ≤ x + y :=
  nonneg_iff.mpr ((nonneg_iff.mp hx).add (nonneg_iff.mp hy)).unpack_pack

/-- The negative of what is below zero is not negative, an infinity included. -/
theorem nonneg_neg (hx : x < 0) : 0 ≤ -x := by
  have hcompare := Series.lt_iff_compare.mp hx
  rw [unpack_zero] at hcompare
  by_cases hfinite : x.isFinite = true
  · have dx := denotes_toReal hfinite
    have hneg := (dx.lt_iff denotes_zero).mp hx
    exact (denotes_zero.le_iff dx.neg).mpr (neg_nonneg.mpr hneg.le)
  · have hunpack : (-x).toModel.unpack =
        UnpackedFloat.unpack .binary64 (UnpackedFloat.pack .binary64 x.toModel.unpack.neg) := rfl
    change ¬ x.toModel.unpack.isFinite = true at hfinite
    rw [nonneg_iff, hunpack]
    generalize x.toModel.unpack = f at hcompare hfinite ⊢
    cases f with
    | zero | finite => exact absurd rfl hfinite
    | notANumber => cases hcompare
    | infinity s =>
        cases s with
        | positive => cases hcompare
        | negative => exact .infinity

/-- A sum of floats that are not negative is not negative. -/
theorem nonneg_sum {values : List Float} (h : ∀ v ∈ values, 0 ≤ v) : 0 ≤ Series.sum values := by
  have hfold : ∀ start : Float, 0 ≤ start → 0 ≤ values.foldl (· + ·) start := by
    induction values with
    | nil => exact fun start hstart => hstart
    | cons v rest ih =>
        obtain ⟨hv, hrest⟩ := List.forall_mem_cons.mp h
        exact fun start hstart => ih hrest (start + v) (nonneg_add hstart hv)
  exact hfold (-0.0) (by decide)

/-- What is not negative, shared out among a positive number, is not negative. -/
theorem nonneg_div {s : ℝ} (hx : 0 ≤ x) (hy : Denotes y s) (hs : 0 < s) : 0 ≤ x / y := by
  have hquotient := (nonneg_iff.mp hx).div hy.isNumber (hs.trans_eq hy.value_eq.symm)
  exact nonneg_iff.mpr hquotient.unpack_pack

theorem nonneg_shared {n : ℕ} (hx : 0 ≤ x) (hpos : 0 < n) (hn : n < 2 ^ 64) :
    0 ≤ x / Float.ofNat n := by
  obtain ⟨hdenotes, hone⟩ := denotes_count hpos hn
  exact nonneg_div hx hdenotes (zero_lt_one.trans_le hone)

/-- A quotient by infinity is a number, of a float that denotes one. -/
theorem isNaN_div_inf (hx : x.isFinite = true) : (x / Float.inf).isNaN = false := by
  have hnumber := (denotes_toReal hx).isNumber
  have hquotient : IsExtended (UnpackedFloat.div .binary64 x.toModel.unpack
      (.infinity .positive)) := by
    generalize x.toModel.unpack = f at hnumber
    cases hnumber with
    | zero | finite => exact .inl (.zero _)
  exact isNaN_unpack_pack hquotient

/-- **The quotient of floats that are not negative, by one that is no zero, is no number exactly
where both are infinite.** -/
theorem isNaN_div_iff (hx : 0 ≤ x) (hy : 0 ≤ y) (hne : ¬ (y == 0) = true) :
    (x / y).isNaN = true ↔ x = Float.inf ∧ y = Float.inf := by
  constructor
  · intro hnan
    rw [← Bool.not_eq_false] at hnan
    rcases finite_or_inf hy with hfinite | rfl
    · have dy := denotes_toReal hfinite
      have hpos : 0 < toReal y := lt_of_le_of_ne ((denotes_zero.le_iff dy).mp hy)
        fun hzero => hne ((dy.beq_iff denotes_zero).mpr hzero.symm)
      exact absurd (isNaN_of_nonneg (nonneg_div hx dy hpos)) hnan
    · exact ⟨(finite_or_inf hx).resolve_left fun hfinite => hnan (isNaN_div_inf hfinite), rfl⟩
  · rintro ⟨rfl, rfl⟩
    decide

/-! ### Zeros -/

/-- What equals zero is a zero of either sign. -/
theorem beq_zero_iff : (x == 0) = true ↔ ∃ s, x.toModel.unpack = .zero s := by
  have hcompare : (x == 0) =
      (x.toModel.unpack.compare (.zero .positive) == some .eq) := rfl
  rw [hcompare]
  cases x.toModel.unpack with
  | zero s => exact iff_of_true rfl ⟨s, rfl⟩
  | notANumber => exact iff_of_false (by decide) nofun
  | infinity s | finite s => cases s <;> exact iff_of_false nofun nofun

theorem eq_zero_or_of_beq (hx : (x == 0) = true) : x = 0 ∨ x = -0.0 := by
  obtain ⟨s, hs⟩ := beq_zero_iff.mp hx
  cases s with
  | positive => exact .inl (eq_of_unpack_eq hs)
  | negative => exact .inr (eq_of_unpack_eq hs)

/-- A zero shared out among what is positive is a zero. -/
theorem zero_div (hx : (x == 0) = true) (hy : 0 ≤ y) (hne : ¬ (y == 0) = true) :
    (x / y == 0) = true := by
  obtain ⟨s, hs⟩ := beq_zero_iff.mp hx
  have hunpack : (x / y).toModel.unpack = UnpackedFloat.unpack .binary64
      (UnpackedFloat.pack .binary64 (.div .binary64 x.toModel.unpack y.toModel.unpack)) := rfl
  have hquotient : UnpackedFloat.div .binary64 (.zero s) y.toModel.unpack = .zero s := by
    have hnonneg := nonneg_iff.mp hy
    rw [beq_zero_iff] at hne
    generalize y.toModel.unpack = g at hne hnonneg
    cases hnonneg with
    | zero s' => exact absurd ⟨s', rfl⟩ hne
    | finite | infinity => cases s <;> rfl
  rw [hs, hquotient] at hunpack
  exact beq_zero_iff.mpr ⟨s, hunpack.trans (by cases s <;> rfl)⟩

end

end MarketSignals.Binary64
