import MarketSignals.Json.Number
import MarketSignals.Proofs.Float.Bounds
import MarketSignals.Proofs.Text.Digits

/-!
# Floats behind numerals

What numerals rest on. On the side of the writer, a float is taken apart into a mantissa and a power
of two, which are those of the real number that it denotes. On the side of the reader, digits are
gathered into a count, and the count is scaled by a power of ten. That gives a float unless the
scaled count is too large, and a numeral with few digits before its point has none that is.

## Main results

* `Binary.abs_toReal`: the parts of a float are those of its number.
* `Numeral.isSome_scale?`: a scaled count below the 307th power of ten is a float.
* `Numeral.isSome_float?`: so a numeral of at most 307 places denotes a float.
-/

namespace MarketSignals

open Binary64

namespace Decimal

open Float.Model Float.Model.UnpackedFloat

/-! ### The parts of a float -/

/-- The stored exponent and the stored fraction of a word. -/
theorem toNat_packComponents (s : Sign) (exponent : BitVec 11) (mantissa : BitVec 52) :
    (packComponents .binary64 s exponent mantissa).toNat >>> 52 % 2 ^ 11 = exponent.toNat ∧
      (packComponents .binary64 s exponent mantissa).toNat % 2 ^ 52 = mantissa.toNat :=
  ⟨congrArg BitVec.toNat (@unpackExponent_packComponents .binary64 s exponent mantissa),
    congrArg BitVec.toNat (@unpackMantissa_packComponents .binary64 s exponent mantissa)⟩

/-- The parts that bits are taken apart into, given the stored ones. -/
theorem Binary.ofBits_eq {bits : UInt64} {exponent fraction : ℕ}
    (hexponent : bits.toNat >>> 52 % 2 ^ 11 = exponent) (hfraction : bits.toNat % 2 ^ 52 = fraction) :
    ofBits bits = if exponent = 0 then ⟨fraction, -1074, false⟩
      else ⟨2 ^ 52 + fraction, exponent - 1075, fraction == 0 && exponent > 1⟩ := by
  have hmask : ((bits >>> 52) &&& 0x7FF).toNat = exponent := by
    rw [← hexponent, UInt64.toNat_and, UInt64.toNat_shiftRight]
    exact Nat.and_two_pow_sub_one_eq_mod _ 11
  have hmask' : (bits &&& 0xFFFFFFFFFFFFF).toNat = fraction := by
    rw [← hfraction, UInt64.toNat_and]
    exact Nat.and_two_pow_sub_one_eq_mod _ 52
  simp only [ofBits, hmask, hmask']
  split_ifs <;> rfl

/-- **The parts of a float are those of its number.** -/
theorem Binary.abs_toReal {x : Float} (h : x.isFinite = true) :
    |toReal x| = (ofBits x.toBits).mantissa * 2 ^ (ofBits x.toBits).exponent := by
  obtain ⟨s, exponent, mantissa, hbits, hgreatest⟩ := exists_parts (b := x.toBits.toBitVec) h
  obtain ⟨hexponent, hmantissa⟩ := toNat_packComponents s exponent mantissa
  rw [← hbits] at hexponent hmantissa
  have hvalue : toReal x = value (UnpackedFloat.unpack .binary64 x.toBits.toBitVec) := rfl
  rw [hvalue, hbits, ofBits_eq hexponent hmantissa]
  by_cases hleast : exponent = 0#11
  · subst hleast
    have hnone : (0#11).toNat = 0 := rfl
    rw [if_pos hnone]
    rcases Nat.eq_zero_or_pos mantissa.toNat with hzero | hpos
    · obtain rfl : mantissa = 0#52 := BitVec.eq_of_toNat_eq hzero
      have hunpack : UnpackedFloat.unpack .binary64 (packComponents .binary64 s 0#11 0#52) =
          .zero s := unpack_packedZero
      rw [hunpack, value_zero, abs_zero]
      simp
    · rw [unpack_subnormal s hpos, value_finite, abs_signed, abs_of_nonneg (by positivity)]
  · have hpos : exponent.toNat ≠ 0 := fun hzero => hleast (BitVec.eq_of_toNat_eq hzero)
    rw [if_neg hpos, unpack_normal _ _ hleast hgreatest, value_finite, abs_signed,
      abs_of_nonneg (by positivity)]

/-- A float that is not zero has a positive mantissa. -/
theorem Binary.mantissa_pos {x : Float} (h : x.isFinite = true) (hne : (x == 0) = false) :
    0 < (ofBits x.toBits).mantissa := by
  by_contra hzero
  have hvalue := abs_toReal h
  rw [Nat.eq_zero_of_not_pos hzero, Nat.cast_zero, zero_mul, abs_eq_zero] at hvalue
  have hequal := ((denotes_toReal h).beq_iff denotes_zero).mpr hvalue
  rw [hne] at hequal
  cases hequal

end Decimal

namespace Numeral

/-! ### Gathering digits -/

/-- A digit is worth at most nine. -/
theorem digit_le_nine {c : Char} (hc : c.isDigit = true) : c.toNat - '0'.toNat ≤ 9 := by
  have hle : c.toNat ≤ '9'.toNat := (Char.isDigit_iff_toNat.mp hc).2
  exact Nat.sub_le_sub_right hle _

/-- **What is gathered has no more places than the digits.** It also stays below `2 ^ 64`. -/
theorem gather_le {text : List Char} (hdigits : ∀ c ∈ text, c.isDigit = true) {total : Nat}
    (htotal : total < 2 ^ 64) :
    (gather total text).1 < 2 ^ 64 ∧
      ((gather total text).1 + 1) * 10 ^ (gather total text).2.length ≤
        (total + 1) * 10 ^ text.length := by
  induction text generalizing total with
  | nil => exact ⟨htotal, le_rfl⟩
  | cons c rest ih =>
      obtain ⟨hc, hrest⟩ := List.forall_mem_cons.mp hdigits
      rw [gather]
      split_ifs with hnext
      · obtain ⟨hlt, hle⟩ := ih hrest hnext
        have hdigit := digit_le_nine hc
        refine ⟨hlt, hle.trans ?_⟩
        rw [List.length_cons, pow_succ', ← mul_assoc]
        exact Nat.mul_le_mul_right _ (by omega)
      · exact ⟨htotal, le_rfl⟩

/-! ### Scaling -/

/-- A float that is scaled down is a float. -/
theorem isSome_scale?_of_neg {x : Float} {exponent : ℤ} (h : exponent < 0) :
    (scale? x exponent).isSome = true := by
  induction hn : exponent.natAbs using Nat.strongRecOn generalizing x exponent with
  | ind n ih =>
      have hdown : ¬ 0 ≤ exponent := by omega
      by_cases hnear : exponent.natAbs ≤ 308
      · rw [scale?, if_pos hnear, if_neg hdown]
        rfl
      by_cases hzero : (x == 0) = true
      · rw [scale?, if_neg hnear, if_pos hzero]
        rfl
      · rw [scale?, if_neg hnear, if_neg hzero, if_neg hdown]
        exact ih (exponent + 308).natAbs (by omega) (by omega) rfl

/-- Rounding a count adds no quarter of it. -/
theorem rnd_natCast_le (n : ℕ) : rnd n ≤ 5 / 4 * n := by
  rcases Nat.eq_zero_or_pos n with rfl | hpos
  · rw [Nat.cast_zero, rnd_zero, mul_zero]
  have hone : (1 : ℝ) ≤ n := by exact_mod_cast hpos
  have hunit : -52 ≤ quantum n := le_quantum_of_le_abs (by
    rw [abs_of_nonneg (Nat.cast_nonneg n)]
    simpa using hone)
  have hsize := zpow_quantum_le_abs (x := (n : ℝ)) (by positivity) (by omega)
  rw [abs_of_nonneg (Nat.cast_nonneg n), zpow_add₀ two_ne_zero] at hsize
  have herror := (abs_le.mp (abs_rnd_sub_le (n : ℝ))).2
  have hbits : (4 : ℝ) ≤ 2 ^ (52 : ℤ) := by norm_num
  nlinarith [zpow_pos (two_pos : (0 : ℝ) < 2) (quantum (n : ℝ))]

/-- No infinity is finite. -/
theorem isInf_eq_false {x : Float} (h : x.isFinite = true) : x.isInf = false := by
  have hnumber := (denotes_toReal h).isNumber
  have hunpack : x.isInf = x.toModel.unpack.isInf := rfl
  rw [hunpack]
  generalize x.toModel.unpack = f at hnumber
  cases hnumber with
  | zero | finite => rfl

/-- The 307th power of ten is no more than `2 ^ 1023`. -/
theorem ten_pow_le_two_pow : (10 : ℝ) ^ 307 ≤ 2 ^ 1023 := by
  have hcount : 10 ^ 307 ≤ 2 ^ 1023 := by decide +kernel
  exact_mod_cast hcount

/-- **A scaled count below the 307th power of ten is a float.** -/
theorem isSome_scale? {count : ℕ} {exponent : ℤ} (hcount : count < 2 ^ 64)
    (h : (count : ℝ) * 10 ^ exponent < 10 ^ 307) :
    (scale? (Float.ofNat count) exponent).isSome = true := by
  rcases lt_or_ge exponent 0 with hneg | hnonneg
  · exact isSome_scale?_of_neg hneg
  obtain ⟨n, rfl⟩ := Int.eq_ofNat_of_zero_le hnonneg
  rw [zpow_natCast] at h
  by_cases hnear : n ≤ 308
  · have hsize : |(count : ℝ)| ≤ 2 ^ 64 := by
      rw [abs_of_nonneg (Nat.cast_nonneg _)]
      exact_mod_cast hcount.le
    have hproduct : |rnd count * rnd (10 ^ n)| ≤ (25 : ℕ) * 2 ^ (1019 : ℤ) := by
      have hleft := rnd_natCast_le count
      have hright := rnd_natCast_le (10 ^ n)
      push_cast at hright
      rw [abs_of_nonneg (mul_nonneg (rnd_nonneg (by positivity)) (rnd_nonneg (by positivity)))]
      calc rnd count * rnd (10 ^ n) ≤ 5 / 4 * count * (5 / 4 * 10 ^ n) :=
            mul_le_mul hleft hright (rnd_nonneg (by positivity)) (by positivity)
        _ = 25 / 16 * (count * 10 ^ n) := by ring
        _ ≤ 25 / 16 * 2 ^ 1023 :=
            mul_le_mul_of_nonneg_left (h.le.trans ten_pow_le_two_pow) (by norm_num)
        _ = (25 : ℕ) * 2 ^ (1019 : ℤ) := by
            rw [show (2 : ℝ) ^ 1023 = 2 ^ 4 * 2 ^ 1019 by rw [← pow_add], ← zpow_natCast 2 1019]
            push_cast
            ring
    have hrange : InRange (rnd count * rnd (10 ^ n)) := by
      refine ⟨(abs_rnd_le (representable_mul_zpow (by norm_num) (by norm_num)) hproduct).trans_lt ?_⟩
      rw [show (1024 : ℤ) = 5 + 1019 by norm_num, zpow_add₀ two_ne_zero]
      exact mul_lt_mul_of_pos_right (by norm_num) (zpow_pos two_pos _)
    have hscaled := (denotes_ofNat (inRange_of_abs_le hsize (by norm_num)).1).mul
      (denotes_powerOfTen hnear) hrange
    rw [scale?, if_pos (by simpa using hnear), if_pos hnonneg]
    simp [isInf_eq_false hscaled.finite]
  · -- A power beyond the 308th would be too large for any count but zero.
    obtain rfl : count = 0 := by
      by_contra hpos
      have hone : (1 : ℝ) ≤ count := by exact_mod_cast Nat.pos_of_ne_zero hpos
      have hpower : (10 : ℝ) ^ 307 ≤ 10 ^ n :=
        pow_le_pow_right₀ (by norm_num) (by omega)
      have hmany : (10 : ℝ) ^ n ≤ count * 10 ^ n := le_mul_of_one_le_left (by positivity) hone
      exact absurd (h.trans_le (hpower.trans hmany)) (lt_irrefl _)
    have hzero : (Float.ofNat 0 == 0) = true := by decide
    rw [scale?, if_neg (by simpa using hnear), if_pos hzero]
    rfl

/-! ### Numerals of few places -/

/-- The integer that a written exponent denotes. -/
def exponentValue (n : Numeral) : ℤ :=
  match n.exponent with
  | none => 0
  | some e => if e.negative then -(Text.value e.digits : ℤ) else Text.value e.digits

/-- How many of the digits stand before the point, once the exponent has moved it. -/
def places (n : Numeral) : ℤ :=
  n.whole.length + n.exponentValue

variable {n : Numeral}

/-- Digits gathered from a numeral, at the power of ten that is left, are a float, where the numeral
has at most 307 places. -/
theorem isSome_magnitude? {significand : ℕ} {shift : ℤ} (hcount : significand < 2 ^ 64)
    (hgathered : (significand : ℝ) * 10 ^ shift < 10 ^ n.whole.length) (hplaces : n.places ≤ 307) :
    (magnitude? significand shift n.exponent).isSome = true := by
  have hscaled : (scale? (Float.ofNat significand) (shift + n.exponentValue)).isSome = true := by
    refine isSome_scale? hcount ?_
    calc (significand : ℝ) * 10 ^ (shift + n.exponentValue)
        = significand * 10 ^ shift * 10 ^ n.exponentValue := by
          rw [zpow_add₀ (by norm_num), mul_assoc]
      _ < 10 ^ n.whole.length * 10 ^ n.exponentValue :=
          mul_lt_mul_of_pos_right hgathered (by positivity)
      _ = 10 ^ n.places := by rw [places, zpow_add₀ (by norm_num), zpow_natCast]
      _ ≤ 10 ^ (307 : ℤ) := zpow_le_zpow_right₀ (by norm_num) hplaces
      _ = 10 ^ 307 := zpow_ofNat 10 307
  rw [places, exponentValue] at hplaces
  rw [exponentValue] at hscaled
  cases hexponent : n.exponent with
  | none => simpa [hexponent, magnitude?] using hscaled
  | some e =>
      rw [hexponent] at hscaled hplaces
      rw [magnitude?]
      split_ifs with hkept hnegative hnone
      · simpa only [hnegative, if_true, sub_eq_add_neg] using hscaled
      · simpa only [if_neg hnegative] using hscaled
      · rfl
      · -- An exponent that is not kept is too large, unless it is negative.
        have hmax : maxExponent = 2147483647 := by decide
        obtain ⟨-, hpositive⟩ := not_or.mp (mt Bool.or_eq_true_iff.mpr hnone)
        simp only [if_neg hpositive] at hplaces
        omega

/-- **A numeral of at most 307 places denotes a float.** -/
theorem isSome_float? (hwhole : ∀ c ∈ n.whole, c.isDigit = true)
    (hfraction : ∀ c ∈ n.fraction, c.isDigit = true) (hplaces : n.places ≤ 307) :
    n.float?.isSome = true := by
  obtain ⟨hfits, hfront⟩ := gather_le hwhole (by norm_num : 0 < 2 ^ 64)
  obtain ⟨hcount, hback⟩ := gather_le hfraction hfits
  simp only [float?, Option.isSome_map]
  generalize gather 0 n.whole = front at hfits hfront hcount hback ⊢
  generalize gather front.1 n.fraction = back at hcount hback ⊢
  refine isSome_magnitude? hcount ?_ hplaces
  have hall : (back.1 + 1) * 10 ^ (front.2.length + back.2.length) ≤
      10 ^ (n.whole.length + n.fraction.length) := calc
    (back.1 + 1) * 10 ^ (front.2.length + back.2.length)
      = (back.1 + 1) * 10 ^ back.2.length * 10 ^ front.2.length := by rw [pow_add]; ring
    _ ≤ (front.1 + 1) * 10 ^ n.fraction.length * 10 ^ front.2.length :=
        Nat.mul_le_mul_right _ hback
    _ = (front.1 + 1) * 10 ^ front.2.length * 10 ^ n.fraction.length := by ring
    _ ≤ (0 + 1) * 10 ^ n.whole.length * 10 ^ n.fraction.length := Nat.mul_le_mul_right _ hfront
    _ = 10 ^ (n.whole.length + n.fraction.length) := by rw [pow_add]; ring
  have hall' : ((back.1 : ℝ) + 1) * 10 ^ (front.2.length + back.2.length) ≤
      10 ^ (n.whole.length + n.fraction.length) := by exact_mod_cast hall
  rw [zpow_sub₀ (by norm_num), ← Nat.cast_add, zpow_natCast, zpow_natCast, ← mul_div_assoc,
    div_lt_iff₀ (by positivity), ← pow_add]
  refine lt_of_lt_of_le ?_ hall'
  exact mul_lt_mul_of_pos_right (lt_add_one _) (by positivity)

/-- **A count of 64 bits denotes a float.** -/
theorem float?_ofNat {count : Nat} (hcount : count < 2 ^ 64) :
    ((ofNat count).float?).isSome = true := by
  have hshort : (Text.digits count).length ≤ 20 := Text.length_digits_le (by norm_num) (by omega)
  refine isSome_float? (Text.areDigits_digits count).2 (List.forall_mem_nil _) ?_
  simp only [places, exponentValue, ofNat]
  omega

end Numeral

end MarketSignals
