import MarketSignals.Proofs.Json.Numerals

/-!
# The size of a written float

A float that is not too large is written as a numeral that denotes a float. The digits of a float
are those of a decimal that reads back as the float, and such a decimal is at most twice as large.
So the float bounds how many digits stand before the point, in every layout.

Whether the numeral denotes the float that was written is not said here.

## Main results

* `Decimal.Binary.point_shortest_le`: how many digits a float has before the point.
* `Numeral.exists_float?_ofFloat?`: a float of at most `2 ^ 1018` is written as a numeral that
  denotes a float.
-/

namespace MarketSignals

open Binary64

namespace Decimal

/-! ### Decimals near a float -/

/-- A power with an integer exponent as a quotient of two with natural exponents. -/
theorem zpow_eq_div {base : ℝ} (hbase : base ≠ 0) (i : ℤ) :
    base ^ i = base ^ i.toNat / base ^ (-i).toNat := by
  rw [← zpow_natCast, ← zpow_natCast, ← zpow_sub₀ hbase, Int.toNat_sub_toNat_neg]

/-- Scaled counts that compare denote real numbers that compare. -/
theorem le_of_compareScaled {a b : ℕ} {i j : ℤ} (h : compareScaled a i b j ≠ .gt) :
    (a : ℝ) * 10 ^ i ≤ b * 2 ^ j := by
  have hle : a * 10 ^ i.toNat * 2 ^ (-j).toNat ≤ b * 2 ^ j.toNat * 10 ^ (-i).toNat :=
    compare_le_iff_le.mp h
  rw [zpow_eq_div (by norm_num), zpow_eq_div two_ne_zero, ← mul_div_assoc, ← mul_div_assoc,
    div_le_div_iff₀ (by positivity) (by positivity)]
  exact_mod_cast hle

/-- A decimal that reads back as a positive value is at most twice as large. -/
theorem Binary.le_of_readsBack {x : Binary} (hx : 0 < x.mantissa) {a : ℕ} {i : ℤ}
    (h : x.readsBack a i = true) : (a : ℝ) * 10 ^ i ≤ 2 * (x.mantissa * 2 ^ x.exponent) := by
  have hhigh : compareScaled a i (4 * x.mantissa + 2) (x.exponent - 2) ≠ .gt := fun habove => by
    simp [readsBack, habove] at h
  have hone : (1 : ℝ) ≤ x.mantissa := by exact_mod_cast hx
  calc (a : ℝ) * 10 ^ i ≤ (4 * x.mantissa + 2 : ℕ) * 2 ^ (x.exponent - 2) :=
        le_of_compareScaled hhigh
    _ ≤ 8 * x.mantissa * 2 ^ (x.exponent - 2) := by
        refine mul_le_mul_of_nonneg_right ?_ (by positivity)
        push_cast
        linarith
    _ = 2 * (x.mantissa * 2 ^ x.exponent) := by
        rw [zpow_sub₀ two_ne_zero]
        norm_num
        ring

/-- All digits of a value are those of the value. -/
theorem Binary.exists_exact (x : Binary) : ∃ (a : ℕ) (i : ℤ), x.exact = .ofScaled a i ∧
    (a : ℝ) * 10 ^ i = x.mantissa * 2 ^ x.exponent := by
  rw [exact]
  split_ifs with hneg
  · refine ⟨_, _, rfl, ?_⟩
    obtain ⟨n, hn⟩ := Int.exists_eq_neg_ofNat hneg.le
    have hten : (10 : ℝ) ^ n = 5 ^ n * 2 ^ n := by rw [← mul_pow]; norm_num
    rw [hn, Int.natAbs_neg, Int.natAbs_natCast, zpow_neg, zpow_neg, zpow_natCast, zpow_natCast,
      hten, Nat.cast_mul, Nat.pow_eq, Nat.cast_pow, Nat.cast_ofNat]
    field_simp
  · refine ⟨_, _, rfl, ?_⟩
    rw [zpow_zero, mul_one, Nat.cast_mul, Nat.pow_eq, Nat.cast_pow, Nat.cast_ofNat, ← zpow_natCast,
      Int.toNat_of_nonneg (not_lt.mp hneg)]

/-- The digits of a value are those of a decimal that is at most twice as large. -/
theorem Binary.exists_shortest {x : Binary} (hx : 0 < x.mantissa) (tie : Tie) :
    ∃ (a : ℕ) (i : ℤ), x.shortest tie = .ofScaled a i ∧ 0 < a ∧
      (a : ℝ) * 10 ^ i ≤ 2 * (x.mantissa * 2 ^ x.exponent) := by
  rw [shortest]
  cases hfound : (List.range 17).findSome?
      fun (n : Nat) => x.onGrid? tie (x.scale - ((n : Int) + 1)) with
  | none =>
      obtain ⟨a, i, hexact, hvalue⟩ := x.exists_exact
      have hpos : (0 : ℝ) < x.mantissa * 2 ^ x.exponent := by positivity
      refine ⟨a, i, hexact, Nat.pos_of_ne_zero ?_, by rw [hvalue]; linarith⟩
      rintro rfl
      rw [Nat.cast_zero, zero_mul] at hvalue
      exact hpos.ne hvalue
  | some d =>
      obtain ⟨n, -, hgrid⟩ := List.exists_of_findSome?_eq_some hfound
      obtain ⟨a, hpos, hreads, rfl⟩ := exists_readsBack hx hgrid
      exact ⟨a, _, rfl, hpos, le_of_readsBack hx hreads⟩

/-- A decimal below a power of ten has no digits before its place. -/
theorem Digits.point_ofScaled_le {a : ℕ} {i p : ℤ} (ha : 0 < a) (h : (a : ℝ) * 10 ^ i < 10 ^ p) :
    (ofScaled a i).point ≤ p := by
  have hfirst : ((10 ^ ((Text.digits a).length - 1) : ℕ) : ℝ) ≤ a := by
    exact_mod_cast Text.ten_pow_le ha
  have hsome : 0 < (Text.digits a).length := List.length_pos_iff.mpr (Text.digits_ne_nil a)
  rw [Nat.cast_pow, Nat.cast_ofNat, ← zpow_natCast] at hfirst
  have hbelow : (10 : ℝ) ^ (((Text.digits a).length - 1 : ℕ) + i) < 10 ^ p := by
    rw [zpow_add₀ (by norm_num)]
    exact (mul_le_mul_of_nonneg_right hfirst (by positivity)).trans_lt h
  have hplace := (zpow_lt_zpow_iff_right₀ (by norm_num)).mp hbelow
  show ((Text.digits a).length : ℤ) + i ≤ p
  omega

/-- **How many digits a float has before the point.** -/
theorem Binary.point_shortest_le {x : Binary} (hx : 0 < x.mantissa) (tie : Tie) {p : ℤ}
    (h : 2 * ((x.mantissa : ℝ) * 2 ^ x.exponent) < 10 ^ p) : (x.shortest tie).point ≤ p := by
  obtain ⟨a, i, hdigits, hpos, hle⟩ := exists_shortest hx tie
  rw [hdigits]
  exact Digits.point_ofScaled_le hpos (hle.trans_lt h)

end Decimal

namespace Numeral

/-- Every layout of digits has as many places as stand before the point, or one. -/
theorem places_ofDigits_le (negative : Bool) (d : Decimal.Digits) :
    (ofDigits negative d).places ≤ max 1 d.point := by
  unfold ofDigits
  split_ifs with hwhole hamong hbehind
  -- All digits before the point, with zeros up to it.
  · simp [places, exponentValue, Decimal.zeros]
    omega
  -- The point among the digits.
  · simp [places, exponentValue]
    omega
  -- All digits behind the point, after zeros.
  · simp [places, exponentValue]
  -- The point behind the first digit, and an exponent.
  · have hsigned : (if d.point - 1 < 0 then -|d.point - 1| else |d.point - 1|) = d.point - 1 := by
      split_ifs with hneg
      · rw [abs_of_neg hneg, neg_neg]
      · exact abs_of_nonneg (not_lt.mp hneg)
    simp only [places, exponentValue, List.length_take, Text.value_digits, decide_eq_true_eq,
      Nat.cast_natAbs, Int.cast_abs, Int.cast_id, hsigned]
    omega

/-- A float of at most `2 ^ 1018` is written with at most 307 places. -/
theorem places_ofFloat?_le {x : Float} {n : Numeral} (h : AtMost 1018 x)
    (hn : ofFloat? x = some n) : n.places ≤ 307 := by
  rw [ofFloat?, if_neg (by simp [h.finite])] at hn
  split_ifs at hn with hzero
  · cases hn
    show ((1 : ℕ) : ℤ) + 0 ≤ 307
    norm_num
  · cases hn
    have hpos := Decimal.Binary.mantissa_pos h.finite (Bool.eq_false_of_not_eq_true hzero)
    obtain ⟨r, hx, hle⟩ := h
    rw [← hx.toReal_eq, Decimal.Binary.abs_toReal hx.finite] at hle
    have hbelow : 2 * (((Decimal.Binary.ofBits x.toBits).mantissa : ℝ) *
        2 ^ (Decimal.Binary.ofBits x.toBits).exponent) < 10 ^ (307 : ℤ) := by
      have hpower : 2 * 2 ^ 1018 < 10 ^ 307 := by decide +kernel
      exact (mul_le_mul_of_nonneg_left hle two_pos.le).trans_lt (by exact_mod_cast hpower)
    have hpoint := Decimal.Binary.point_shortest_le hpos .toEven hbelow
    exact (places_ofDigits_le _ _).trans (max_le (by norm_num) hpoint)

/-- **A float of at most `2 ^ 1018` is written as a numeral that denotes a float.** -/
theorem exists_float?_ofFloat? {x : Float} (h : AtMost 1018 x) :
    ∃ n y, ofFloat? x = some n ∧ n.float? = some y := by
  obtain ⟨n, hn⟩ : ∃ n, ofFloat? x = some n := by
    rw [ofFloat?, if_neg (by simp [h.finite])]
    split_ifs <;> exact ⟨_, rfl⟩
  have hgrammar := wellFormed_ofFloat? hn
  obtain ⟨y, hy⟩ := Option.isSome_iff_exists.mp
    (isSome_float? hgrammar.whole.2 hgrammar.fraction (places_ofFloat?_le h hn))
  exact ⟨n, y, hn, hy⟩

end Numeral

end MarketSignals
