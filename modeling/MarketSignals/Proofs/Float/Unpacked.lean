import Mathlib
import MarketSignals.Proofs.Float.Rounding

/-!
# Rounding of unpacked floats

An operation on floats works out a mantissa, an exponent and two bits that say what is left of the
result below the mantissa. From these the result is rounded. Here the mantissa and the bits are read
as a real number, and rounding them comes to rounding this number.

## Main results

* `Describes.roundedMantissa`: the bits round as the number they describe.
* `rounded_roundWithAccuracy`: a described number is rounded to the nearest float.
* `rounded_normalize`: so is a count of a power of two.
-/

namespace MarketSignals.Binary64

open Float.Model Float.Model.UnpackedFloat

/-! ### Residual bits -/

/-- A mantissa with residual bits describes a number: the round bit counts a half, and the sticky bit
says whether anything is left that is less. -/
inductive Describes (em : ExtendedMantissa) (t : ℝ) : Prop
  | of_rest (rest : ℝ) (eq_add : t = em.mantissa + (if em.roundBit then 1 / 2 else 0) + rest)
      (nonneg : 0 ≤ rest) (lt_half : rest < 1 / 2) (sticky : em.stickyBit = true ↔ 0 < rest)

/-- A described number is at least the mantissa, and less than the next. -/
theorem Describes.bounds {em : ExtendedMantissa} {t : ℝ} (h : Describes em t) :
    em.mantissa ≤ t ∧ t < em.mantissa + 1 := by
  obtain ⟨rest, rfl, hnonneg, hlt, -⟩ := h
  cases em.roundBit <;> constructor <;> norm_num <;> linarith

theorem describes_exact (m : Nat) : Describes (.ofMantissaAndAccuracy m .exact) m :=
  ⟨0, by simp [ExtendedMantissa.ofMantissaAndAccuracy], le_rfl, by norm_num,
    by simp [ExtendedMantissa.ofMantissaAndAccuracy]⟩

/-- A mantissa with an accuracy describes what is compared with the middle of two mantissas. -/
theorem describes_inexact {m : Nat} {t : ℝ} {o : Ordering} (hlow : (m : ℝ) < t) (hhigh : t < m + 1)
    (ho : match o with
      | .lt => t < m + 1 / 2
      | .eq => t = m + 1 / 2
      | .gt => (m : ℝ) + 1 / 2 < t) :
    Describes (.ofMantissaAndAccuracy m (.inexact o)) t := by
  cases o with
  | lt =>
      exact ⟨t - m, by simp [ExtendedMantissa.ofMantissaAndAccuracy], by linarith,
        by linarith [show t < m + 1 / 2 from ho],
        by simpa [ExtendedMantissa.ofMantissaAndAccuracy] using hlow⟩
  | eq =>
      exact ⟨0, by simpa [ExtendedMantissa.ofMantissaAndAccuracy] using ho, le_rfl, by norm_num,
        by simp [ExtendedMantissa.ofMantissaAndAccuracy]⟩
  | gt =>
      have hgt : (m : ℝ) + 1 / 2 < t := ho
      refine ⟨t - m - 1 / 2, ?_, by linarith, by linarith, ?_⟩
      · simp only [ExtendedMantissa.ofMantissaAndAccuracy, if_true]
        ring
      · simp only [ExtendedMantissa.ofMantissaAndAccuracy, true_iff]
        linarith

/-- What is shifted out of the mantissa goes into the bits. -/
theorem Describes.shiftRightOne {em : ExtendedMantissa} {t : ℝ} (h : Describes em t) :
    Describes em.shiftRightOne (t / 2) := by
  obtain ⟨rest, rfl, hnonneg, hlt, hsticky⟩ := h
  obtain ⟨m, round, sticky⟩ := em
  have hsplit : (m : ℝ) = 2 * (m / 2 : ℕ) + (m % 2 : ℕ) := by
    exact_mod_cast (Nat.div_add_mod m 2).symm
  have hbit : (m % 2 : ℕ) = 0 ∨ (m % 2 : ℕ) = 1 := Nat.mod_two_eq_zero_or_one m
  refine ⟨((if round then 1 / 2 else 0) + rest) / 2, ?_, ?_, ?_, ?_⟩
  · rcases hbit with hzero | hone
    · simp only [ExtendedMantissa.shiftRightOne, hzero, hsplit]
      push_cast
      simp
      ring
    · simp only [ExtendedMantissa.shiftRightOne, hone, hsplit]
      push_cast
      simp
      ring
  · cases round <;> norm_num <;> linarith
  · cases round <;> norm_num <;> linarith
  · cases round with
    | false => simpa [ExtendedMantissa.shiftRightOne] using hsticky
    | true =>
        simp only [ExtendedMantissa.shiftRightOne, Bool.true_or, true_iff, if_true]
        linarith

theorem Describes.shiftRight {em : ExtendedMantissa} {t : ℝ} (h : Describes em t) (n : Nat) :
    Describes (em >>> n) (t / 2 ^ n) := by
  induction n with
  | zero => rwa [pow_zero, div_one]
  | succ n ih =>
      have hstep : Describes (em >>> (n + 1)) (t / 2 ^ n / 2) := ih.shiftRightOne
      rwa [div_div, ← pow_succ] at hstep

/-- The bits round as the number they describe. -/
theorem Describes.roundedMantissa {em : ExtendedMantissa} {t : ℝ} (h : Describes em t) :
    roundEven t = (em.roundedMantissa : ℤ) := by
  obtain ⟨rest, rfl, hnonneg, hlt, hsticky⟩ := h
  obtain ⟨m, round, sticky⟩ := em
  rw [roundEven_eq_iff]
  cases round with
  | false =>
      have hrounded : (ExtendedMantissa.mk m false sticky).roundedMantissa = m := by
        cases sticky <;> rfl
      rw [hrounded]
      refine .inl ?_
      simp only [Bool.false_eq_true, if_false, Int.cast_natCast, add_zero, add_sub_cancel_left]
      rwa [abs_of_nonneg hnonneg]
  | true =>
      cases sticky with
      | true =>
          have hpos : 0 < rest := hsticky.mp rfl
          have hrounded : (ExtendedMantissa.mk m true true).roundedMantissa = m + 1 := rfl
          rw [hrounded]
          refine .inl ?_
          simp only [if_true]
          push_cast
          rw [abs_lt]
          constructor <;> linarith
      | false =>
          have hzero : rest = 0 := le_antisymm (not_lt.mp fun h => by simpa using hsticky.mpr h) hnonneg
          have hrounded : (ExtendedMantissa.mk m true false).roundedMantissa = m + m % 2 := rfl
          rw [hrounded, hzero]
          refine .inr ⟨?_, ?_⟩
          · rcases Nat.mod_two_eq_zero_or_one m with hbit | hbit <;>
              simp only [hbit, if_true] <;> push_cast <;> norm_num
          · rw [Int.even_iff]
            omega

/-! ### The target exponent -/

/-- The logarithm of a number between two powers of two. -/
theorem log_eq_of_le_of_lt {x : ℝ} {n : ℤ} (hlow : 2 ^ n ≤ x) (hhigh : x < 2 ^ (n + 1)) :
    Int.log 2 x = n := by
  have hpos : 0 < x := (zpow_pos two_pos n).trans_le hlow
  refine le_antisymm ?_ ((Int.zpow_le_iff_le_log one_lt_two hpos).mp hlow)
  exact Int.lt_add_one_iff.mp ((Int.lt_zpow_iff_log_lt one_lt_two hpos).mp hhigh)

/-- The exponent that leaves a mantissa of 53 bits, or the least one. -/
theorem targetExponent_eq (e : ℤ) : Format.binary64.targetExponent e = max (e - 53) (-1074) :=
  rfl

theorem targetExponent_totalExponent (m : Nat) (e : ℤ) :
    Format.binary64.targetExponent (totalExponent m e) = max (m.log2 + e - 52) (-1074) := by
  rw [targetExponent_eq, totalExponent]
  omega

theorem zpow_log2_le {m : Nat} (hm : 0 < m) : (2 : ℝ) ^ (m.log2 : ℤ) ≤ m := by
  rw [zpow_natCast]
  exact_mod_cast Nat.log2_self_le hm.ne'

theorem lt_zpow_log2 (m : Nat) : (m : ℝ) + 1 ≤ 2 ^ ((m.log2 : ℤ) + 1) := by
  have hlt : m + 1 ≤ 2 ^ (m.log2 + 1) := Nat.lt_log2_self
  exact_mod_cast hlt

/-- The exponent that is aimed at is that of the number's unit. -/
theorem targetExponent_eq_quantum {m : Nat} {e : ℤ} {t : ℝ} (hlow : m ≤ t) (hhigh : t < m + 1)
    (hpos : 0 < t) (he : 0 < m ∨ e ≤ quantum (t * 2 ^ e)) :
    Format.binary64.targetExponent (totalExponent m e) = quantum (t * 2 ^ e) := by
  have hunit : (0 : ℝ) < 2 ^ e := zpow_pos two_pos e
  rw [targetExponent_totalExponent]
  rcases Nat.eq_zero_or_pos m with rfl | hm
  · -- Less than one unit is left, so the number is among the smallest.
    have he' := he.resolve_left (lt_irrefl 0)
    have hlog : Int.log 2 |t * 2 ^ e| < e := by
      rw [← Int.lt_zpow_iff_log_lt one_lt_two (abs_pos.mpr (mul_pos hpos hunit).ne'),
        abs_of_pos (mul_pos hpos hunit)]
      norm_num at hhigh
      exact (mul_lt_mul_of_pos_right hhigh hunit).trans_eq (one_mul _)
    rw [quantum] at he' ⊢
    rw [Nat.log2_zero]
    omega
  · have hlog : Int.log 2 |t * 2 ^ e| = m.log2 + e := by
      rw [abs_of_pos (mul_pos hpos hunit)]
      refine log_eq_of_le_of_lt ?_ ?_
      · rw [zpow_add₀ two_ne_zero]
        exact mul_le_mul_of_nonneg_right ((zpow_log2_le hm).trans hlow) hunit.le
      · rw [add_right_comm, zpow_add₀ two_ne_zero]
        exact mul_lt_mul_of_pos_right (hhigh.trans_le (lt_zpow_log2 m)) hunit
    rw [quantum, hlog]

/-! ### Canonical floats -/

/-- A mantissa and an exponent in canonical form: 53 bits, or fewer with the least exponent. There is
no largest exponent. -/
structure Canonical (m : Nat) (e : ℤ) : Prop where
  mantissa_lt : m < 2 ^ 53
  le_exponent : -1074 ≤ e
  normal : 2 ^ 52 ≤ m ∨ e = -1074

/-- A float is a zero or a finite number in canonical form. -/
inductive IsNumber : UnpackedFloat → Prop
  | zero (s : Sign) : IsNumber (.zero s)
  | finite {s : Sign} {m : Nat} {e : ℤ} {hm : 0 < m} (h : Canonical m e) :
      IsNumber (.finite s m e hm)

/-- A number with a sign. -/
def signed : Sign → ℝ → ℝ
  | .negative, x => -x
  | .positive, x => x

/-- The real number that a float denotes; zero for what denotes none. -/
noncomputable def value : UnpackedFloat → ℝ
  | .finite s m e _ => signed s (m * (2 : ℕ) ^ e)
  | .zero _ | .infinity _ | .notANumber => 0

theorem value_finite (s : Sign) {m : Nat} (e : ℤ) (hm : 0 < m) :
    value (.finite s m e hm) = signed s (m * 2 ^ e) :=
  rfl

theorem value_zero (s : Sign) : value (.zero s) = 0 :=
  rfl

@[simp] theorem signed_zero (s : Sign) : signed s 0 = 0 := by
  cases s <;> simp [signed]

@[simp] theorem abs_signed (s : Sign) (x : ℝ) : |signed s x| = |x| := by
  cases s <;> simp [signed]

@[simp] theorem rnd_signed (s : Sign) (x : ℝ) : rnd (signed s x) = signed s (rnd x) := by
  cases s <;> simp [signed]

/-- A float that is the nearest to a number, with the sign of a zero left open. -/
structure Rounded (x : ℝ) (f : UnpackedFloat) : Prop where
  isNumber : IsNumber f
  value_eq : value f = rnd x

theorem IsNumber.representable {f : UnpackedFloat} (h : IsNumber f) : Representable (value f) := by
  cases h with
  | zero s => exact ⟨0, by norm_num, ⟨0, by simp [value]⟩, by rw [value_zero, abs_zero]; positivity⟩
  | @finite s m e hm hcanonical =>
      have hsize := representable_mul_zpow hcanonical.mantissa_lt.le hcanonical.le_exponent
      cases s with
      | negative => exact hsize.neg
      | positive => exact hsize

/-! ### Rounding a described number -/

/-- What becomes of a rounded count: a carry into one more bit is shifted out. -/
def settle (s : Sign) (count : Nat) (e : ℤ) : UnpackedFloat :=
  let settled := shiftToTargetExponent .binary64 count e .exact
  if h : settled.1.mantissa = 0 then .zero s
  else .finite s settled.1.mantissa settled.2 (Nat.pos_of_ne_zero h)

theorem roundWithAccuracy_eq_settle (s : Sign) (m : Nat) (e : ℤ) (acc : Accuracy) :
    roundWithAccuracy .binary64 s m e acc =
      settle s (shiftToTargetExponent .binary64 m e acc).1.roundedMantissa
        (shiftToTargetExponent .binary64 m e acc).2 :=
  rfl

/-- Shifting out the carry of a count leaves its value. -/
theorem shiftToTargetExponent_carry {count : Nat} {e : ℤ} (hcount : count ≤ 2 ^ 53)
    (he : -1074 ≤ e) (hnormal : 2 ^ 52 ≤ count ∨ e = -1074) :
    ∃ m e', Canonical m e' ∧ (m : ℝ) * 2 ^ e' = count * 2 ^ e ∧
      (shiftToTargetExponent .binary64 count e .exact).1.mantissa = m ∧
      (shiftToTargetExponent .binary64 count e .exact).2 = e' := by
  simp only [shiftToTargetExponent, shiftToExponent, targetExponent_totalExponent]
  rcases hcount.lt_or_eq with hlt | rfl
  · have hlog : count.log2 ≤ 52 := by
      rcases Nat.eq_zero_or_pos count with rfl | hpos
      · rw [Nat.log2_zero]
        exact Nat.zero_le _
      · exact Nat.lt_succ_iff.mp ((Nat.log2_lt hpos.ne').mpr hlt)
    have hnone : (max ((count.log2 : ℤ) + e - 52) (-1074) - e).toNat = 0 := by omega
    rw [hnone]
    exact ⟨count, e, ⟨hlt, he, hnormal⟩, rfl, rfl, by norm_num⟩
  · have hone : (max (((2 ^ 53 : ℕ).log2 : ℤ) + e - 52) (-1074) - e).toNat = 1 := by
      rw [Nat.log2_two_pow]
      omega
    rw [hone]
    refine ⟨2 ^ 52, e + 1, ⟨by norm_num, by omega, .inl le_rfl⟩, ?_, by decide, by norm_num⟩
    rw [zpow_add_one₀ two_ne_zero]
    push_cast
    ring

theorem settle_spec (s : Sign) {count : Nat} {e : ℤ} (hcount : count ≤ 2 ^ 53) (he : -1074 ≤ e)
    (hnormal : 2 ^ 52 ≤ count ∨ e = -1074) :
    IsNumber (settle s count e) ∧ value (settle s count e) = signed s (count * 2 ^ e) := by
  obtain ⟨m, e', hcanonical, hvalue, hm, he'⟩ := shiftToTargetExponent_carry hcount he hnormal
  rw [← hvalue]
  by_cases hzero : m = 0
  · have hsettle : settle s count e = .zero s := dif_pos (hm.trans hzero)
    rw [hsettle, hzero]
    exact ⟨.zero s, by simp [value]⟩
  · have hsettle : settle s count e = .finite s m e' (Nat.pos_of_ne_zero hzero) := by
      rw [settle, dif_neg (by rwa [hm])]
      subst hm he'
      rfl
    rw [hsettle]
    exact ⟨.finite hcanonical, rfl⟩

/-- The count of units of a number that is not negative. -/
theorem count_bounds {x : ℝ} {count : Nat} (hx : 0 < x)
    (hcount : roundEven (x / 2 ^ quantum x) = count) :
    count ≤ 2 ^ 53 ∧ (2 ^ 52 ≤ count ∨ quantum x = -1074) := by
  have hunit : (0 : ℝ) < 2 ^ quantum x := zpow_pos two_pos _
  constructor
  · have hlt : x / 2 ^ quantum x ≤ ((2 ^ 53 : ℤ) : ℝ) := by
      have hsize := (le_abs_self x).trans (abs_lt_zpow_quantum x).le
      rw [add_comm, zpow_add₀ two_ne_zero] at hsize
      rw [div_le_iff₀ hunit]
      exact_mod_cast hsize
    have hle := roundEven_mono hlt
    rw [roundEven_intCast, hcount] at hle
    exact_mod_cast hle
  · rcases (le_quantum x).eq_or_lt with hleast | hlarger
    · exact .inr hleast.symm
    · have hle : ((2 ^ 52 : ℤ) : ℝ) ≤ x / 2 ^ quantum x := by
        have hsize := zpow_quantum_le_abs hx.ne' hlarger
        rw [add_comm, zpow_add₀ two_ne_zero, abs_of_pos hx] at hsize
        rw [le_div_iff₀ hunit]
        exact_mod_cast hsize
      have hle := roundEven_mono hle
      rw [roundEven_intCast, hcount] at hle
      exact .inl (by exact_mod_cast hle)

/-- **A described number is rounded to the nearest float.** -/
theorem rounded_roundWithAccuracy (s : Sign) {m : Nat} {e : ℤ} {acc : Accuracy} {t : ℝ}
    (ht : Describes (.ofMantissaAndAccuracy m acc) t) (hpos : 0 < t)
    (he : e ≤ quantum (t * 2 ^ e)) :
    Rounded (signed s (t * 2 ^ e)) (roundWithAccuracy .binary64 s m e acc) := by
  have hmantissa : (ExtendedMantissa.ofMantissaAndAccuracy m acc).mantissa = m := by
    cases acc with
    | exact => rfl
    | inexact o => cases o <;> rfl
  obtain ⟨hlow, hhigh⟩ := ht.bounds
  rw [hmantissa] at hlow hhigh
  have htarget := targetExponent_eq_quantum hlow hhigh hpos (.inr he)
  have hx : 0 < t * 2 ^ e := mul_pos hpos (zpow_pos two_pos e)
  -- The shift leaves the count of units, and what is left of it in the bits.
  have hshift : t * 2 ^ e / 2 ^ quantum (t * 2 ^ e) =
      t / 2 ^ (quantum (t * 2 ^ e) - e).toNat := by
    rw [← zpow_natCast (2 : ℝ), Int.toNat_of_nonneg (by omega), zpow_sub₀ two_ne_zero]
    field_simp
  have hcount := (ht.shiftRight (quantum (t * 2 ^ e) - e).toNat).roundedMantissa
  rw [← hshift] at hcount
  have hexponent : e + ((quantum (t * 2 ^ e) - e).toNat : ℤ) = quantum (t * 2 ^ e) := by omega
  obtain ⟨hupper, hnormal⟩ := count_bounds hx hcount
  obtain ⟨hnumber, hvalue⟩ := settle_spec s hupper (le_quantum _) hnormal
  rw [roundWithAccuracy_eq_settle]
  simp only [shiftToTargetExponent, htarget, shiftToExponent, hexponent]
  exact ⟨hnumber, by rw [hvalue, rnd_signed, rnd, hcount, Int.cast_natCast]⟩

/-- A count of a power of two is rounded, where its bits go down to its unit. -/
theorem rounded_roundWithAccuracy_exact (s : Sign) {m : Nat} {e : ℤ} (hm : 0 < m)
    (he : e ≤ quantum (m * 2 ^ e)) :
    Rounded (signed s (m * 2 ^ e)) (roundWithAccuracy .binary64 s m e .exact) :=
  rounded_roundWithAccuracy s (describes_exact m) (by exact_mod_cast hm) he

/-- Making an exponent smaller leaves the value. -/
theorem decreaseExponent_spec (m : Nat) (e target : ℤ) :
    (decreaseExponent m e target).2 = min e target ∧
      ((decreaseExponent m e target).1 : ℝ) * 2 ^ min e target = m * 2 ^ e := by
  have hexponent : e - ((e - target).toNat : ℤ) = min e target := by omega
  refine ⟨hexponent, ?_⟩
  have hshift : (decreaseExponent m e target).1 = m * 2 ^ (e - target).toNat :=
    Nat.shiftLeft_eq _ _
  rw [hshift, ← hexponent, zpow_sub₀ two_ne_zero, zpow_natCast]
  push_cast
  field_simp

/-- A count of a power of two is rounded, whatever the power. -/
theorem rounded_round (s : Sign) {m : Nat} (e : ℤ) (hm : 0 < m) :
    Rounded (signed s (m * 2 ^ e)) (UnpackedFloat.round .binary64 s m e) := by
  have htarget := targetExponent_eq_quantum (e := e) le_rfl (lt_add_one (m : ℝ))
    (by exact_mod_cast hm) (.inl hm)
  obtain ⟨hexponent, hvalue⟩ := decreaseExponent_spec m e (quantum (m * 2 ^ e))
  have hshifted : 0 < (decreaseExponent m e (quantum (m * 2 ^ e))).1 := by
    rw [decreaseExponent, Nat.shiftLeft_eq]
    positivity
  have hrounded := rounded_roundWithAccuracy_exact s hshifted (by rw [hvalue]; exact min_le_right _ _)
  rw [hvalue, ← hexponent] at hrounded
  unfold UnpackedFloat.round
  simp only [htarget]
  exact hrounded

/-- **A count of a power of two, with a sign, is rounded to the nearest float.** -/
theorem rounded_normalize (count : ℤ) (e : ℤ) :
    Rounded (count * 2 ^ e) (UnpackedFloat.normalize .binary64 count e .positive) := by
  unfold UnpackedFloat.normalize
  rcases lt_trichotomy count 0 with hneg | rfl | hpos
  · rw [Int.compare_eq_lt.mpr hneg]
    have hrounded := rounded_round .negative e (m := (-count).toNat) (by omega)
    have hcount : (((-count).toNat : ℕ) : ℝ) = -count := by
      exact_mod_cast Int.toNat_of_nonneg (by omega : 0 ≤ -count)
    rw [hcount, signed, neg_mul, neg_neg] at hrounded
    exact hrounded
  · simp only [Int.cast_zero, zero_mul]
    exact ⟨.zero _, by simp [value]⟩
  · rw [Int.compare_eq_gt.mpr hpos]
    have hrounded := rounded_round .positive e (m := count.toNat) (by omega)
    have hcount : ((count.toNat : ℕ) : ℝ) = count := by
      exact_mod_cast Int.toNat_of_nonneg hpos.le
    rwa [hcount, signed] at hrounded

end MarketSignals.Binary64
