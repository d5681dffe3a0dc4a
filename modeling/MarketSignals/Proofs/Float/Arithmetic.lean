import MarketSignals.Json.Number
import MarketSignals.Proofs.Float.Packing
import MarketSignals.Proofs.Indicator.UnitInterval

/-!
# Arithmetic of floats

A finite float denotes a real number, and the result of an operation denotes the rounded result of
the operation on real numbers, as long as that is in range. So statements about floats turn into
statements about real numbers and their rounding. Infinities and what is no number denote nothing.

## Main results

* `Denotes.add`, `Denotes.sub`, `Denotes.mul`, `Denotes.div`, `Denotes.sqrt`: operations round.
* `Denotes.lt_iff`, `Denotes.le_iff`, `Denotes.beq_iff`: comparisons are those of real numbers.
* `Denotes.eq`: a number that is not zero has one float.
* `denotes_ofNat`, `denotes_powerOfTen`: what counts and powers of ten denote.
-/

namespace MarketSignals.Binary64

open Float.Model

/-- A finite float denotes a real number. -/
structure Denotes (x : Float) (r : ℝ) : Prop where
  finite : x.isFinite = true
  value_eq : value x.toModel.unpack = r

/-- The real number behind a float; zero for what denotes none. -/
noncomputable def toReal (x : Float) : ℝ :=
  value x.toModel.unpack

theorem denotes_toReal {x : Float} (h : x.isFinite = true) : Denotes x (toReal x) :=
  ⟨h, rfl⟩

theorem Denotes.toReal_eq {x : Float} {r : ℝ} (h : Denotes x r) : toReal x = r :=
  h.value_eq

/-- A number that is rounded to a float, not to an infinity. -/
structure InRange (r : ℝ) : Prop where
  abs_rnd_lt : |rnd r| < 2 ^ (1024 : ℤ)

section

variable {x y : Float} {r s : ℝ}

theorem Denotes.isNumber (h : Denotes x r) : IsNumber x.toModel.unpack :=
  (isNumber_unpack h.finite).1

theorem Denotes.abs_lt (h : Denotes x r) : |r| < 2 ^ (1024 : ℤ) := by
  rw [← h.value_eq]
  exact (isNumber_unpack h.finite).2.1

theorem Denotes.representable (h : Denotes x r) : Representable r := by
  rw [← h.value_eq]
  exact h.isNumber.representable

theorem Denotes.rnd_eq (h : Denotes x r) : rnd r = r :=
  rnd_of_representable h.representable

/-- What a float denotes is in range. -/
theorem Denotes.inRange (h : Denotes x r) : InRange r :=
  ⟨h.rnd_eq.symm ▸ h.abs_lt⟩

/-- A float denotes one number. -/
theorem Denotes.unique (h : Denotes x r) (h' : Denotes x s) : r = s :=
  h.value_eq.symm.trans h'.value_eq

/-! ### Ranges -/

/-- A number that a float denotes. -/
structure Exact (r : ℝ) : Prop where
  representable : Representable r
  abs_lt : |r| < 2 ^ (1024 : ℤ)

theorem Denotes.exact (h : Denotes x r) : Exact r :=
  ⟨h.representable, h.abs_lt⟩

/-- What is between two numbers of floats is in range, and is rounded to what is between them. -/
theorem between_rnd {low high : ℝ} (hlow : Exact low) (hhigh : Exact high) (hl : low ≤ r)
    (hh : r ≤ high) : InRange r ∧ low ≤ rnd r ∧ rnd r ≤ high := by
  have hbelow := le_rnd hlow.representable hl
  have habove := rnd_le hhigh.representable hh
  exact ⟨⟨abs_lt.mpr ⟨(abs_lt.mp hlow.abs_lt).1.trans_le hbelow,
    habove.trans_lt (abs_lt.mp hhigh.abs_lt).2⟩⟩, hbelow, habove⟩

theorem Exact.inRange (h : Exact r) : InRange r :=
  (between_rnd h h le_rfl le_rfl).1

/-- A number up to a power of two that is in range. -/
theorem inRange_of_abs_le_zpow {k : ℤ} (h : |r| ≤ 2 ^ k) (hlow : -1074 ≤ k) (hhigh : k < 1024) :
    InRange r :=
  ⟨(abs_rnd_le (representable_zpow hlow) h).trans_lt (zpow_lt_zpow_right₀ one_lt_two hhigh)⟩

/-- A number that is no larger than one in range. -/
theorem InRange.of_abs_le (h : InRange s) (hle : |r| ≤ |s|) : InRange r := by
  have hs := h.abs_rnd_lt
  refine ⟨?_⟩
  rw [abs_rnd] at hs ⊢
  exact (rnd_mono hle).trans_lt hs

/-! ### Operations -/

/-- An operation that rounds and packs gives what is rounded. -/
theorem denotes_pack {f : UnpackedFloat} (hf : Rounded r f) (h : InRange r) :
    Denotes (.ofModel (.pack f)) (rnd r) := by
  have hunpack : (Float.ofModel (.pack f)).toModel.unpack = f :=
    unpack_pack hf.isNumber (by rw [hf.value_eq]; exact h.abs_rnd_lt)
  refine ⟨?_, by rw [hunpack, hf.value_eq]⟩
  show (Float.ofModel (.pack f)).toModel.unpack.isFinite = true
  rw [hunpack]
  exact hf.isNumber.isFinite

theorem Denotes.add (hx : Denotes x r) (hy : Denotes y s) (h : InRange (r + s)) :
    Denotes (x + y) (rnd (r + s)) := by
  rw [← hx.value_eq, ← hy.value_eq] at h ⊢
  exact denotes_pack (rounded_add hx.isNumber hy.isNumber) h

theorem Denotes.sub (hx : Denotes x r) (hy : Denotes y s) (h : InRange (r - s)) :
    Denotes (x - y) (rnd (r - s)) := by
  rw [← hx.value_eq, ← hy.value_eq] at h ⊢
  exact denotes_pack (rounded_sub hx.isNumber hy.isNumber) h

theorem Denotes.mul (hx : Denotes x r) (hy : Denotes y s) (h : InRange (r * s)) :
    Denotes (x * y) (rnd (r * s)) := by
  rw [← hx.value_eq, ← hy.value_eq] at h ⊢
  exact denotes_pack (rounded_mul hx.isNumber hy.isNumber) h

theorem Denotes.div (hx : Denotes x r) (hy : Denotes y s) (hne : s ≠ 0) (h : InRange (r / s)) :
    Denotes (x / y) (rnd (r / s)) := by
  rw [← hx.value_eq, ← hy.value_eq] at h ⊢
  exact denotes_pack (rounded_div hx.isNumber hy.isNumber (hy.value_eq ▸ hne)) h

/-- Square roots are always in range. -/
theorem Denotes.sqrt (hx : Denotes x r) (hnonneg : 0 ≤ r) : Denotes x.sqrt (rnd (√r)) := by
  have hroot : |√r| ≤ 2 ^ (512 : ℤ) := by
    have hle : r ≤ (2 ^ (512 : ℤ)) ^ 2 := by
      have hlt := (le_abs_self r).trans_lt hx.abs_lt
      rw [← zpow_natCast, ← zpow_mul]
      exact hlt.le
    rw [abs_of_nonneg (Real.sqrt_nonneg r)]
    exact Real.sqrt_le_iff.mpr ⟨by positivity, hle⟩
  have h := inRange_of_abs_le_zpow hroot (by norm_num) (by norm_num)
  rw [← hx.value_eq] at h hnonneg ⊢
  exact denotes_pack (rounded_sqrt hx.isNumber hnonneg) h

theorem Denotes.neg (hx : Denotes x r) : Denotes (-x) (-r) := by
  have hrange : InRange (value x.toModel.unpack.neg) := by
    rw [value_neg, hx.value_eq]
    exact hx.inRange.of_abs_le (abs_neg r).le
  have hneg := denotes_pack hx.isNumber.neg.rounded hrange
  rwa [rnd_of_representable hx.isNumber.neg.representable, value_neg, hx.value_eq] at hneg

theorem Denotes.abs (hx : Denotes x r) : Denotes x.abs |r| := by
  have hrange : InRange (value x.toModel.unpack.abs) := by
    rw [value_abs, hx.value_eq]
    exact hx.inRange.of_abs_le (abs_abs r).le
  have habs := denotes_pack hx.isNumber.abs.rounded hrange
  rwa [rnd_of_representable hx.isNumber.abs.representable, value_abs, hx.value_eq] at habs

/-! ### Comparisons -/

theorem Denotes.isNaN (hx : Denotes x r) : x.isNaN = false :=
  hx.isNumber.isNaN

theorem Denotes.lt_iff (hx : Denotes x r) (hy : Denotes y s) : x < y ↔ r < s := by
  rw [Series.lt_iff_compare, compare_eq_lt_iff hx.isNumber hy.isNumber, hx.value_eq, hy.value_eq]

theorem Denotes.le_iff (hx : Denotes x r) (hy : Denotes y s) : x ≤ y ↔ r ≤ s := by
  rw [Series.le_iff_not_lt, hy.lt_iff hx, not_lt]
  exact ⟨fun h => h.2.2, fun h => ⟨hx.isNaN, hy.isNaN, h⟩⟩

theorem Denotes.beq_iff (hx : Denotes x r) (hy : Denotes y s) : (x == y) = true ↔ r = s := by
  have hdef : (x == y) = (x.toModel.unpack.compare y.toModel.unpack == some .eq) := rfl
  obtain ⟨o, ho⟩ := Series.exists_compare (a := x.toModel.unpack) (b := y.toModel.unpack)
    hx.isNaN hy.isNaN
  have hlt := hx.lt_iff hy
  have hgt := hy.lt_iff hx
  rw [Series.lt_iff_compare, ho] at hlt
  rw [Series.lt_iff_compare, Series.compare_swap x.toModel.unpack, ho] at hgt
  rw [hdef, ho]
  cases o with
  | lt => exact iff_of_false (by decide) (hlt.mp rfl).ne
  | gt => exact iff_of_false (by decide) (hgt.mp rfl).ne'
  | eq =>
      refine iff_of_true rfl (le_antisymm (not_lt.mp fun h => ?_) (not_lt.mp fun h => ?_))
      · cases hgt.mpr h
      · cases hlt.mpr h

theorem le_refl_of_finite (hx : x.isFinite = true) : x ≤ x :=
  ((denotes_toReal hx).le_iff (denotes_toReal hx)).mpr le_rfl

theorem le_trans_of_finite {z : Float} (hx : x.isFinite = true) (hy : y.isFinite = true)
    (hz : z.isFinite = true) (hxy : x ≤ y) (hyz : y ≤ z) : x ≤ z :=
  ((denotes_toReal hx).le_iff (denotes_toReal hz)).mpr
    ((((denotes_toReal hx).le_iff (denotes_toReal hy)).mp hxy).trans
      (((denotes_toReal hy).le_iff (denotes_toReal hz)).mp hyz))

/-- Of two finite floats, one that is not below the other is not less than it. -/
theorem le_of_not_lt (hx : x.isFinite = true) (hy : y.isFinite = true)
    (h : ¬ x < y) : y ≤ x :=
  ((denotes_toReal hy).le_iff (denotes_toReal hx)).mpr
    (not_lt.mp fun hlt => h (((denotes_toReal hx).lt_iff (denotes_toReal hy)).mpr hlt))

theorem le_of_lt_of_finite (hx : x.isFinite = true) (hy : y.isFinite = true)
    (h : x < y) : x ≤ y :=
  ((denotes_toReal hx).le_iff (denotes_toReal hy)).mpr
    (((denotes_toReal hx).lt_iff (denotes_toReal hy)).mp h).le

/-- Floats that unpack alike are one float. -/
theorem eq_of_unpack_eq (h : x.toModel.unpack = y.toModel.unpack) : x = y := by
  obtain ⟨⟨⟨bits⟩, hvalid⟩⟩ := x
  obtain ⟨⟨⟨bits'⟩, hvalid'⟩⟩ := y
  obtain rfl : bits = bits' := (UnpackedFloat.unpack_inj_of_valid hvalid hvalid').mp h
  rfl

/-- A number that is not zero has one float. -/
theorem Denotes.eq (hx : Denotes x r) (hy : Denotes y r) (hne : r ≠ 0) : x = y :=
  eq_of_unpack_eq (eq_of_value_eq hx.isNumber hy.isNumber
    (hx.value_eq.trans hy.value_eq.symm) (hx.value_eq ▸ hne))

/-- The difference of a finite float and itself is the zero without a sign. -/
theorem sub_self_of_finite (h : x.isFinite = true) : x - x = 0 :=
  congrArg (fun f => Float.ofModel (.pack f)) (isNumber_unpack h).1.sub_self

/-! ### Overflow -/

/-- What is a number is finite or an infinity. -/
theorem isExtended_unpack (hy : y.isNaN = false) : IsExtended y.toModel.unpack := by
  by_cases hfinite : y.isFinite = true
  · exact .inl (denotes_toReal hfinite).isNumber
  · change y.toModel.unpack.isNaN = false at hy
    change ¬ y.toModel.unpack.isFinite = true at hfinite
    generalize y.toModel.unpack = f at hy hfinite
    cases f with
    | infinity s => exact .inr ⟨s, rfl⟩
    | notANumber => cases hy
    | zero | finite => exact absurd rfl hfinite

theorem isNaN_add (hx : Denotes x r) (hy : y.isNaN = false) : (x + y).isNaN = false :=
  isNaN_unpack_pack (isExtended_add hx.isNumber (isExtended_unpack hy))

theorem isNaN_sub (hx : Denotes x r) (hy : y.isNaN = false) : (x - y).isNaN = false :=
  isNaN_unpack_pack (isExtended_sub hx.isNumber (isExtended_unpack hy))

theorem isNaN_div_of_ne_zero (hx : Denotes x r) (hr : r ≠ 0) (hy : y.isNaN = false) :
    (x / y).isNaN = false :=
  isNaN_unpack_pack (isExtended_div hx.isNumber (isExtended_unpack hy)
    (.inl (hx.value_eq.trans_ne hr)))

theorem isNaN_div (hx : Denotes x r) (hy : Denotes y s) (hs : s ≠ 0) : (x / y).isNaN = false :=
  isNaN_unpack_pack (isExtended_div hx.isNumber (isExtended_unpack hy.isNaN)
    (.inr ⟨hy.isNumber, hy.value_eq.trans_ne hs⟩))

/-- What is between two finite floats is finite. -/
theorem finite_of_between {z : Float} (hx : Denotes x r) (hz : Denotes z s) (hxy : x ≤ y)
    (hyz : y ≤ z) : y.isFinite = true := by
  rw [Series.le_iff_compare] at hxy hyz
  have hlow := hx.isNumber
  have hhigh := hz.isNumber
  show y.toModel.unpack.isFinite = true
  generalize x.toModel.unpack = f at hxy hlow
  generalize z.toModel.unpack = g at hyz hhigh
  generalize y.toModel.unpack = h at hxy hyz
  obtain ⟨o, ho, hle⟩ := hxy
  obtain ⟨o', ho', hle'⟩ := hyz
  cases h with
  | zero | finite => rfl
  | notANumber => cases ho'
  | infinity s =>
      cases s with
      | positive => cases hhigh <;> cases ho' <;> cases hle'
      | negative => cases hlow <;> cases ho <;> cases hle

end

/-! ### Counts and powers of ten -/

/-- A count that is rounded. -/
theorem rounded_unpacked_ofNat (n : ℕ) : Rounded n (UnpackedFloat.ofNat .binary64 n) := by
  have hrounded := rounded_normalize n 0
  rw [zpow_zero, mul_one, Int.cast_natCast] at hrounded
  exact hrounded

/-- A count times a power of ten that is rounded. -/
theorem rounded_unpacked_ofScientific {m e : ℕ} (hm : m ≠ 0) (he : e ≤ 2048) :
    Rounded (m * 10 ^ e) (UnpackedFloat.ofScientific .binary64 m e) := by
  have hsize : (2 : ℤ) ^ Format.binary64.exponentBits = 2048 := rfl
  have hmany : 2 ^ 52 ≤ m <<< 53 * 10 ^ e := by
    rw [Nat.shiftLeft_eq]
    have := Nat.mul_pos (Nat.pos_of_ne_zero hm) (Nat.pow_pos (n := e) (by norm_num : 0 < 10))
    nlinarith
  have hshift : 0 < m <<< 53 := by
    rw [Nat.shiftLeft_eq]
    positivity
  have hten : 0 < 10 ^ e := Nat.pow_pos (by norm_num)
  have hrounded := rounded_mul_finite .positive .positive (-53) 0 hshift hten (.inl hmany)
  have hvalue : value (.finite .positive (m <<< 53) (-53) hshift) = m := by
    rw [value_finite, signed, Nat.shiftLeft_eq]
    push_cast
    rw [zpow_neg, zpow_ofNat]
    field_simp
    norm_num
  have hpower : value (.finite .positive (10 ^ e) 0 hten) = 10 ^ e := by
    rw [value_finite, signed, zpow_zero, mul_one]
    push_cast
    rfl
  rw [hvalue, hpower] at hrounded
  unfold UnpackedFloat.ofScientific
  rw [dif_neg hm, hsize, if_neg (by omega), if_neg (by omega), if_pos (by omega)]
  exact hrounded

/-- The powers of ten that are kept are what their counts are packed to. -/
theorem exactlyRepresentablePowersOfTen_eq : ∀ e : Fin 23,
    Float.exactlyRepresentablePowersOfTen[e] = .ofModel (.ofNat (10 ^ e.val)) := by
  decide +kernel

/-- A count that is converted. -/
theorem denotes_ofModel_ofNat {n : ℕ} (h : InRange n) :
    Denotes (.ofModel (.ofNat n)) (rnd n) :=
  denotes_pack (rounded_unpacked_ofNat n) h

/-- A power of ten that is kept. -/
theorem denotes_kept {e : ℕ} (he : e ≤ 22)
    (hkept : e < Float.exactlyRepresentablePowersOfTen.size) :
    Denotes Float.exactlyRepresentablePowersOfTen[e] (rnd (10 ^ e)) := by
  have hsize : |((10 ^ e : ℕ) : ℝ)| ≤ 2 ^ (88 : ℤ) := by
    have hpow : 10 ^ e ≤ 10 ^ 22 := Nat.pow_le_pow_right (by norm_num) he
    have hnat : 10 ^ e ≤ 2 ^ 88 := hpow.trans (by norm_num)
    rw [abs_of_nonneg (Nat.cast_nonneg _)]
    exact_mod_cast hnat
  have hconverted := denotes_ofModel_ofNat
    (inRange_of_abs_le_zpow hsize (by norm_num) (by norm_num))
  rw [Nat.cast_pow, Nat.cast_ofNat] at hconverted
  have hentry := exactlyRepresentablePowersOfTen_eq ⟨e, by omega⟩
  simp only [Fin.getElem_fin] at hentry
  rw [hentry]
  exact hconverted

/-- A count that is converted at once. -/
theorem denotes_toFloat {m : ℕ} (hm : m < 2 ^ 53) : Denotes m.toUInt64.toFloat m := by
  have hsize : m.toUInt64.toNat = m := by
    rw [Nat.toUInt64_eq, UInt64.toNat_ofNat']
    omega
  have hrange : InRange (m.toUInt64.toNat : ℝ) := by
    rw [hsize]
    refine inRange_of_abs_le_zpow (k := 53) ?_ (by norm_num) (by norm_num)
    rw [abs_of_nonneg (Nat.cast_nonneg m)]
    exact_mod_cast hm.le
  have hconverted : Denotes m.toUInt64.toFloat (rnd m.toUInt64.toNat) :=
    denotes_ofModel_ofNat hrange
  rwa [hsize, rnd_natCast hm.le] at hconverted

/-- A count of a power of ten, where one of the two is one. -/
theorem denotes_ofScientific {m e : ℕ} (hpos : m ≠ 0) (hone : m = 1 ∨ e = 0) (he : e ≤ 2048)
    (h : InRange (m * 10 ^ e)) : Denotes (Float.ofScientific m false e) (rnd (m * 10 ^ e)) := by
  unfold Float.ofScientific
  split_ifs with hfast hnever hnever
  · cases hnever
  · -- The product of two floats, one of which is one.
    obtain ⟨hm, hkept⟩ := hfast
    have hproduct : rnd (m * rnd (10 ^ e)) = rnd (m * 10 ^ e) := by
      rcases hone with rfl | rfl
      · rw [Nat.cast_one, one_mul, one_mul, rnd_rnd]
      · rw [pow_zero, rnd_one]
    have hscaled := (denotes_toFloat hm).mul
      (denotes_kept hkept (Nat.lt_of_le_of_lt hkept (by decide)))
      ⟨by rw [hproduct]; exact h.abs_rnd_lt⟩
    rwa [hproduct] at hscaled
  · cases hnever
  · exact denotes_pack (rounded_unpacked_ofScientific hpos he) h

/-- A count as a float. -/
theorem denotes_ofNat {n : ℕ} (h : InRange n) : Denotes (Float.ofNat n) (rnd n) := by
  rcases eq_or_ne n 0 with rfl | hpos
  · exact ⟨by decide, by rw [Nat.cast_zero, rnd_zero]; rfl⟩
  · have hscaled := denotes_ofScientific (e := 0) hpos (.inr rfl) (by norm_num)
      (by rwa [pow_zero, mul_one])
    rwa [pow_zero, mul_one] at hscaled

/-- A small count as a float. -/
theorem denotes_natCast {n : ℕ} (h : n ≤ 2 ^ 53) : Denotes (Float.ofNat n) n := by
  have hrange : InRange n := by
    refine inRange_of_abs_le_zpow (k := 53) ?_ (by norm_num) (by norm_num)
    rw [abs_of_nonneg (Nat.cast_nonneg n)]
    exact_mod_cast h
  have hcount := denotes_ofNat hrange
  rwa [rnd_natCast h] at hcount

theorem denotes_zero : Denotes (0 : Float) 0 := by
  exact_mod_cast denotes_natCast (n := 0) (by norm_num)

theorem denotes_one : Denotes (1 : Float) 1 := by
  exact_mod_cast denotes_natCast (n := 1) (by norm_num)

theorem denotes_hundred : Denotes (100 : Float) 100 := by
  exact_mod_cast denotes_natCast (n := 100) (by norm_num)

/-- A power of ten as a float. -/
theorem denotes_powerOfTen {e : ℕ} (he : e ≤ 308) :
    Denotes (powerOfTen e) (rnd (10 ^ e)) := by
  have hsize : |(10 : ℝ) ^ e| ≤ (3 : ℕ) * 2 ^ (1022 : ℤ) := by
    have hnat : 10 ^ 308 ≤ 3 * 2 ^ 1022 := by decide +kernel
    have hcast : (10 : ℝ) ^ 308 ≤ (3 : ℕ) * 2 ^ (1022 : ℤ) := by exact_mod_cast hnat
    rw [abs_of_nonneg (by positivity)]
    exact (pow_le_pow_right₀ (by norm_num) he).trans hcast
  have hrange : InRange ((1 : ℕ) * 10 ^ e) := by
    rw [Nat.cast_one, one_mul]
    have hfour : (2 : ℝ) ^ (1024 : ℤ) = 4 * 2 ^ (1022 : ℤ) := by
      rw [show (1024 : ℤ) = 2 + 1022 by norm_num, zpow_add₀ two_ne_zero]
      norm_num
    refine ⟨(abs_rnd_le (representable_mul_zpow (by norm_num) (by norm_num)) hsize).trans_lt ?_⟩
    rw [hfour]
    exact mul_lt_mul_of_pos_right (by norm_num) (zpow_pos two_pos _)
  have hscaled := denotes_ofScientific one_ne_zero (.inl rfl) (by omega) hrange
  rwa [Nat.cast_one, one_mul] at hscaled

end MarketSignals.Binary64
