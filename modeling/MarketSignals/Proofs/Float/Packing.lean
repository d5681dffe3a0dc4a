import MarketSignals.Proofs.Float.Operations

/-!
# Packing of floats

A canonical float is packed into a word and unpacked again without loss, unless it is too large for
the exponents there are. And every word that stands for a finite float unpacks to a canonical one
that is not too large.

## Main results

* `unpack_pack`: packing loses no number below `2 ^ 1024`.
* `isNumber_unpack`: what is unpacked is canonical, below `2 ^ 1024`, and packs to what it was.
-/

namespace MarketSignals.Binary64

open Float.Model Float.Model.UnpackedFloat

/-! ### The parts of a word -/

theorem toNat_implicit_append (mantissa : BitVec 52) :
    (1#1 ++ mantissa).toNat = 2 ^ 52 + mantissa.toNat := by
  have hsum := Nat.two_pow_add_eq_or_of_lt mantissa.isLt 1
  rw [Nat.mul_one] at hsum
  rw [BitVec.toNat_append, Nat.shiftLeft_eq, hsum]
  rfl

/-- What is unpacked where the exponent is neither the least nor the greatest. -/
theorem unpack_normal (s : Sign) {exponent : BitVec 11} (mantissa : BitVec 52)
    (hleast : exponent ≠ 0#11) (hgreatest : exponent ≠ -1#11) :
    UnpackedFloat.unpack .binary64 (packComponents .binary64 s exponent mantissa) =
      .finite s (2 ^ 52 + mantissa.toNat) (exponent.toNat - 1075)
        (Nat.add_pos_left (Nat.two_pow_pos 52) _) := by
  have hexponent := @unpackExponent_packComponents .binary64 s exponent mantissa
  have hmantissa := @unpackMantissa_packComponents .binary64 s exponent mantissa
  unfold UnpackedFloat.unpack
  simp only [hexponent, hmantissa, unpackSign_packComponents, Sign.ofBitVec_toBitVec,
    toNat_implicit_append]
  rw [if_neg hgreatest, if_neg hleast]
  rfl

/-- What is unpacked where the exponent is the least. -/
theorem unpack_subnormal (s : Sign) {mantissa : BitVec 52} (hmantissa : 0 < mantissa.toNat) :
    UnpackedFloat.unpack .binary64 (packComponents .binary64 s 0#11 mantissa) =
      .finite s mantissa.toNat (-1074) hmantissa := by
  have hexponent := @unpackExponent_packComponents .binary64 s 0#11 mantissa
  have hparts := @unpackMantissa_packComponents .binary64 s 0#11 mantissa
  have hne : mantissa ≠ 0#52 := fun hzero => by
    rw [hzero] at hmantissa
    exact absurd hmantissa (by decide)
  unfold UnpackedFloat.unpack
  simp only [hexponent, hparts, unpackSign_packComponents, Sign.ofBitVec_toBitVec]
  rw [if_neg (by decide), if_pos trivial, dif_neg hne]
  rfl

/-! ### Sizes -/

/-- The exponent of a canonical number that is not too large. -/
theorem Canonical.exponent_le {m : Nat} {e : ℤ} (h : Canonical m e)
    (hsize : (m : ℝ) * 2 ^ e < 2 ^ (1024 : ℤ)) : e ≤ 971 := by
  rcases h.normal with hnormal | hleast
  · by_contra hlarge
    have hm : (2 : ℝ) ^ (52 : ℤ) ≤ m := by exact_mod_cast hnormal
    have hle : (2 : ℝ) ^ (1024 : ℤ) ≤ m * 2 ^ e := calc
      (2 : ℝ) ^ (1024 : ℤ) ≤ 2 ^ (52 + e) := zpow_le_zpow_right₀ one_le_two (by omega)
      _ = 2 ^ (52 : ℤ) * 2 ^ e := zpow_add₀ two_ne_zero _ _
      _ ≤ m * 2 ^ e := mul_le_mul_of_nonneg_right hm (zpow_pos two_pos e).le
    exact absurd hsize (not_lt.mpr hle)
  · omega

/-- A canonical number with an exponent that can be packed is not too large. -/
theorem Canonical.lt_of_exponent_le {m : Nat} {e : ℤ} (h : Canonical m e) (he : e ≤ 971) :
    (m : ℝ) * 2 ^ e < 2 ^ (1024 : ℤ) := by
  have hm : (m : ℝ) < 2 ^ (53 : ℤ) := by exact_mod_cast h.mantissa_lt
  calc (m : ℝ) * 2 ^ e < 2 ^ (53 : ℤ) * 2 ^ e := mul_lt_mul_of_pos_right hm (zpow_pos two_pos e)
    _ = 2 ^ (53 + e) := (zpow_add₀ two_ne_zero _ _).symm
    _ ≤ 2 ^ (1024 : ℤ) := zpow_le_zpow_right₀ one_le_two (by omega)

theorem bias_eq : (Format.binary64.exponentBias : ℤ) = 1023 :=
  rfl

theorem toNat_ofNat_exponent (biased : Nat) (h : biased < 2047) :
    (BitVec.ofNat 11 biased).toNat = biased := by
  rw [BitVec.toNat_ofNat]
  omega

theorem ofNat_exponent_ne (biased : Nat) (hpos : 0 < biased) (h : biased < 2047) :
    BitVec.ofNat 11 biased ≠ 0#11 ∧ BitVec.ofNat 11 biased ≠ -1#11 := by
  have hsize := toNat_ofNat_exponent biased h
  constructor
  · intro hleast
    rw [hleast, BitVec.toNat_zero] at hsize
    omega
  · intro hgreatest
    have hmax : (-1#11).toNat = 2047 := rfl
    rw [hgreatest, hmax] at hsize
    omega

/-! ### Packing and unpacking -/

/-- What a number with all 53 bits is packed to. -/
theorem pack_normal (s : Sign) {m biased : Nat} (hm : 0 < m) (himplicit : 2 ^ 52 ≤ m)
    (hlt : m < 2 ^ 53) (hpos : 0 < biased) (hbiased : biased < 2047) :
    UnpackedFloat.pack .binary64 (.finite s m (biased - 1075) hm) =
      packComponents .binary64 s (BitVec.ofNat 11 biased) (BitVec.ofNat 52 m) := by
  have hexponent : ((biased : ℤ) - 1075 + Format.binary64.exponentBias +
      ((52 : ℕ) : ℤ)).toNat = biased := by
    rw [bias_eq]
    omega
  have hlog : m.log2 + 1 = Format.binary64.mantissaBits := by
    have hlower := (Nat.le_log2 hm.ne').mpr himplicit
    have hupper := (Nat.log2_lt hm.ne').mpr hlt
    show m.log2 + 1 = 53
    omega
  unfold UnpackedFloat.pack
  simp only [hexponent]
  rw [if_neg (by norm_num; omega), if_pos hlog]

/-- What a number with fewer bits is packed to. -/
theorem pack_subnormal (s : Sign) {m : Nat} (hm : 0 < m) (hlt : m < 2 ^ 52) :
    UnpackedFloat.pack .binary64 (.finite s m (-1074) hm) =
      packComponents .binary64 s 0#11 (BitVec.ofNat 52 m) := by
  have hlog : ¬ m.log2 + 1 = Format.binary64.mantissaBits := by
    have hupper := (Nat.log2_lt hm.ne').mpr hlt
    show ¬ m.log2 + 1 = 53
    omega
  have hexponent : ((-1074 : ℤ) + Format.binary64.exponentBias + ((52 : ℕ) : ℤ)).toNat = 1 := rfl
  unfold UnpackedFloat.pack
  simp only [hexponent]
  rw [if_neg (by norm_num : ¬ 2 ^ 11 ≤ 1 + 1), if_neg hlog]

/-- **Packing loses no number that is not too large.** -/
theorem unpack_pack {f : UnpackedFloat} (h : IsNumber f) (hsize : |value f| < 2 ^ (1024 : ℤ)) :
    UnpackedFloat.unpack .binary64 (UnpackedFloat.pack .binary64 f) = f := by
  cases h with
  | zero s => cases s <;> rfl
  | @finite s m e hm hcanonical =>
      obtain ⟨hlt, hleast, hnormal⟩ := hcanonical
      have he : e ≤ 971 := by
        rw [value_finite, abs_signed] at hsize
        exact Canonical.exponent_le ⟨hlt, hleast, hnormal⟩ ((le_abs_self _).trans_lt hsize)
      by_cases himplicit : 2 ^ 52 ≤ m
      · obtain ⟨biased, rfl⟩ : ∃ biased : ℕ, e = biased - 1075 :=
          ⟨(e + 1075).toNat, by omega⟩
        have hlow : (BitVec.ofNat 52 m).toNat = m - 2 ^ 52 := by
          rw [BitVec.toNat_ofNat]
          omega
        obtain ⟨hpos, hgreatest⟩ := ofNat_exponent_ne biased (by omega) (by omega)
        rw [pack_normal s hm himplicit hlt (by omega) (by omega), unpack_normal _ _ hpos hgreatest]
        simp only [hlow, toNat_ofNat_exponent biased (by omega),
          Nat.add_sub_cancel' himplicit]
      · have hlow : (BitVec.ofNat 52 m).toNat = m := by
          rw [BitVec.toNat_ofNat]
          omega
        obtain rfl : e = -1074 := hnormal.resolve_left himplicit
        rw [pack_subnormal s hm (not_le.mp himplicit), unpack_subnormal _ (by rwa [hlow])]
        simp only [hlow]

/-- A number that is too large is packed as an infinity. -/
theorem pack_of_large {s : Sign} {m : Nat} {e : ℤ} {hm : 0 < m} (h : Canonical m e)
    (hlarge : 2 ^ (1024 : ℤ) ≤ |value (.finite s m e hm)|) :
    UnpackedFloat.pack .binary64 (.finite s m e hm) = packedInfinity .binary64 s := by
  have hexponent : ¬ e ≤ 971 := fun he => by
    rw [value_finite, abs_signed, abs_of_nonneg (by positivity)] at hlarge
    exact absurd hlarge (not_le.mpr (h.lt_of_exponent_le he))
  unfold UnpackedFloat.pack
  simp only [bias_eq]
  refine if_pos ?_
  norm_num
  omega

/-- A number that is packed may become an infinity, but always stands for something. -/
theorem isNaN_unpack_pack {f : UnpackedFloat} (h : IsExtended f) :
    (UnpackedFloat.unpack .binary64 (UnpackedFloat.pack .binary64 f)).isNaN = false := by
  rcases h with hnumber | ⟨s, rfl⟩
  · by_cases hsize : |value f| < 2 ^ (1024 : ℤ)
    · rw [unpack_pack hnumber hsize]
      cases hnumber with
      | zero | finite => rfl
    · cases hnumber with
      | zero s => exact absurd (by rw [value_zero, abs_zero]; positivity) hsize
      | @finite s m e hm hcanonical =>
          rw [pack_of_large hcanonical (not_lt.mp hsize)]
          cases s <;> rfl
  · cases s <;> rfl

/-- A word that stands for a finite float has parts, and its exponent is not the greatest. -/
theorem exists_parts {b : BitVec 64} (h : (UnpackedFloat.unpack .binary64 b).isFinite = true) :
    ∃ s exponent mantissa, b = packComponents .binary64 s exponent mantissa ∧
      exponent ≠ -1#11 := by
  have hparts := @packComponents_unpackSign_unpackExponent_unpackMantissa .binary64 b
  refine ⟨_, _, _, hparts.symm, fun hgreatest => ?_⟩
  unfold UnpackedFloat.unpack at h
  simp only [hgreatest] at h
  rw [if_pos trivial] at h
  split at h <;> cases h

/-- **What is unpacked from a word is canonical and not too large, and packs to the word.** -/
theorem isNumber_unpack {b : BitVec 64}
    (h : (UnpackedFloat.unpack .binary64 b).isFinite = true) :
    IsNumber (UnpackedFloat.unpack .binary64 b) ∧
      |value (UnpackedFloat.unpack .binary64 b)| < 2 ^ (1024 : ℤ) ∧
      UnpackedFloat.pack .binary64 (UnpackedFloat.unpack .binary64 b) = b := by
  obtain ⟨s, exponent, mantissa, rfl, hgreatest⟩ := exists_parts h
  have hmantissa : mantissa.toNat < 2 ^ 52 := mantissa.isLt
  by_cases hleast : exponent = 0#11
  · subst hleast
    rcases Nat.eq_zero_or_pos mantissa.toNat with hzero | hpos
    · obtain rfl : mantissa = 0#52 := BitVec.eq_of_toNat_eq hzero
      have hunpack : UnpackedFloat.unpack .binary64 (packComponents .binary64 s 0#11 0#52) =
          .zero s := unpack_packedZero
      rw [hunpack, value_zero]
      exact ⟨.zero s, by norm_num, rfl⟩
    · have hcanonical : Canonical mantissa.toNat (-1074) := ⟨by omega, le_rfl, .inr rfl⟩
      rw [unpack_subnormal s hpos]
      refine ⟨.finite hcanonical, ?_, ?_⟩
      · rw [value_finite, abs_signed, abs_of_nonneg (by positivity)]
        exact hcanonical.lt_of_exponent_le (by norm_num)
      · rw [pack_subnormal s hpos hmantissa, BitVec.ofNat_toNat, BitVec.setWidth_eq]
  · have hpos : exponent.toNat ≠ 0 := fun hzero => hleast (BitVec.eq_of_toNat_eq hzero)
    have hmax : exponent.toNat ≠ 2047 := fun hmax => hgreatest (BitVec.eq_of_toNat_eq hmax)
    have hexponent : exponent.toNat < 2 ^ 11 := exponent.isLt
    have hcanonical : Canonical (2 ^ 52 + mantissa.toNat) (exponent.toNat - 1075) :=
      ⟨by omega, by omega, .inl (Nat.le_add_right _ _)⟩
    rw [unpack_normal _ _ hleast hgreatest]
    refine ⟨.finite hcanonical, ?_, ?_⟩
    · rw [value_finite, abs_signed, abs_of_nonneg (by positivity)]
      exact hcanonical.lt_of_exponent_le (by omega)
    · have hlow : BitVec.ofNat 52 (2 ^ 52 + mantissa.toNat) = mantissa := by
        refine BitVec.eq_of_toNat_eq ?_
        rw [BitVec.toNat_ofNat]
        omega
      rw [pack_normal s _ (Nat.le_add_right _ _) (by omega) (by omega) (by omega), hlow,
        BitVec.ofNat_toNat, BitVec.setWidth_eq]

end MarketSignals.Binary64
