import MarketSignals.Proofs.Float.Unpacked

/-!
# Operations on unpacked floats

Each operation gives the float nearest to what the operation gives on real numbers, and the order of
floats is that of the numbers they denote. Subtraction is addition of the negative, so it takes no
argument of its own.

## Main results

* `rounded_add`, `rounded_sub`, `rounded_mul`, `rounded_div`, `rounded_sqrt`: operations round.
* `compare_eq_lt_iff`: floats are ordered as the numbers they denote.
* `eq_of_value_eq`: floats of one number that is not zero are one float.
-/

namespace MarketSignals.Binary64

open Float.Model Float.Model.UnpackedFloat

/-! ### Signs -/

theorem cast_apply (s : Sign) (n : ℕ) : ((s.apply n : ℤ) : ℝ) = signed s n := by
  cases s <;> simp [Sign.apply, signed]

theorem signed_mul_right (s : Sign) (x y : ℝ) : signed s x * y = signed s (x * y) := by
  cases s <;> simp [signed]

theorem signed_neg (s : Sign) (x : ℝ) : signed (-s) x = -signed s x := by
  cases s
  · exact (neg_neg x).symm
  · rfl

theorem signed_mul (s s' : Sign) (x y : ℝ) :
    signed (s * s') (x * y) = signed s x * signed s' y := by
  cases s <;> cases s'
  · exact (neg_mul_neg x y).symm
  · exact (neg_mul x y).symm
  · exact (mul_neg x y).symm
  · rfl

theorem signed_div (s s' : Sign) (x y : ℝ) :
    signed (s / s') (x / y) = signed s x / signed s' y := by
  cases s <;> cases s'
  · exact (neg_div_neg_eq x y).symm
  · exact (neg_div y x).symm
  · exact (div_neg x).symm
  · rfl

theorem value_finite_ne_zero {s : Sign} {m : ℕ} {e : ℤ} {hm : 0 < m} :
    value (.finite s m e hm) ≠ 0 := by
  have hpos : (0 : ℝ) < m * 2 ^ e := by positivity
  cases s
  · exact (neg_neg_of_pos hpos).ne
  · exact hpos.ne'

theorem IsNumber.isFinite {f : UnpackedFloat} (h : IsNumber f) : f.isFinite = true := by
  cases h with
  | zero | finite => rfl

theorem IsNumber.isNaN {f : UnpackedFloat} (h : IsNumber f) : f.isNaN = false := by
  cases h with
  | zero | finite => rfl

/-! ### Negation and absolute value -/

theorem IsNumber.neg {f : UnpackedFloat} (h : IsNumber f) : IsNumber f.neg := by
  cases h with
  | zero s => exact .zero _
  | finite h => exact .finite h

theorem value_neg (f : UnpackedFloat) : value f.neg = -value f := by
  cases f with
  | finite s m e hm => exact signed_neg s _
  | zero | infinity | notANumber => exact neg_zero.symm

theorem IsNumber.abs {f : UnpackedFloat} (h : IsNumber f) : IsNumber f.abs := by
  cases h with
  | zero s => exact .zero _
  | finite h => exact .finite h

theorem value_abs (f : UnpackedFloat) : value f.abs = |value f| := by
  cases f with
  | finite s m e hm =>
      rw [value_finite, abs_signed, abs_of_pos (by positivity)]
      rfl
  | zero | infinity | notANumber => exact abs_zero.symm

/-- A number that needs no rounding is rounded. -/
theorem IsNumber.rounded {f : UnpackedFloat} (h : IsNumber f) : Rounded (value f) f :=
  ⟨h, (rnd_of_representable h.representable).symm⟩

/-! ### Sums and differences -/

/-- The sum of two numbers is rounded. -/
theorem rounded_add {f g : UnpackedFloat} (hf : IsNumber f) (hg : IsNumber g) :
    Rounded (value f + value g) (UnpackedFloat.add .binary64 f g) := by
  cases hf with
  | zero s =>
      cases hg with
      | zero s' =>
          refine ⟨?_, by cases s <;> cases s' <;> simp [value] <;> rfl⟩
          cases s <;> cases s' <;> exact .zero _
      | finite hg =>
          rw [value_zero, zero_add]
          exact (IsNumber.finite hg).rounded
  | @finite s m e hm hf =>
      cases hg with
      | zero s' =>
          rw [value_zero, add_zero]
          exact (IsNumber.finite hf).rounded
      | @finite s' m' e' hm' hg =>
          have hleft := (decreaseExponent_spec m e (min e e')).2
          have hright := (decreaseExponent_spec m' e' (min e e')).2
          rw [min_eq_right (min_le_left e e')] at hleft
          rw [min_eq_right (min_le_right e e')] at hright
          have hsum := rounded_normalize (s.apply (decreaseExponent m e (min e e')).1 +
            s'.apply (decreaseExponent m' e' (min e e')).1) (min e e')
          rw [Int.cast_add, cast_apply, cast_apply, add_mul, signed_mul_right, signed_mul_right,
            hleft, hright] at hsum
          exact hsum

/-- Subtraction adds the negative. -/
theorem unpacked_sub_eq_add_neg (f g : UnpackedFloat) :
    UnpackedFloat.sub .binary64 f g = UnpackedFloat.add .binary64 f g.neg := by
  cases f with
  | notANumber => rfl
  | zero s | infinity s => cases g <;> rfl
  | finite s m e hm =>
      cases g with
      | notANumber | zero | infinity => rfl
      | finite s' m' e' hm' =>
          cases s'
          · simp only [UnpackedFloat.sub, UnpackedFloat.add, UnpackedFloat.neg, Sign.apply,
              Int.sub_neg]
          · rfl

theorem rounded_sub {f g : UnpackedFloat} (hf : IsNumber f) (hg : IsNumber g) :
    Rounded (value f - value g) (UnpackedFloat.sub .binary64 f g) := by
  rw [unpacked_sub_eq_add_neg, sub_eq_add_neg, ← value_neg]
  exact rounded_add hf hg.neg

/-- A number less itself is the zero without a sign. -/
theorem IsNumber.sub_self {f : UnpackedFloat} (h : IsNumber f) :
    UnpackedFloat.sub .binary64 f f = .zero .positive := by
  cases h with
  | zero s => cases s <;> rfl
  | @finite s m e hm h =>
      unfold UnpackedFloat.sub
      dsimp only
      rw [Int.sub_self]
      rfl

/-! ### Products -/

/-- The product of two counts of powers of two is rounded, where it has bits enough. -/
theorem rounded_mul_finite (s s' : Sign) {m m' : ℕ} (e e' : ℤ) (hm : 0 < m) (hm' : 0 < m')
    (hbits : 2 ^ 52 ≤ m * m' ∨ e + e' ≤ -1074) :
    Rounded (value (.finite s m e hm) * value (.finite s' m' e' hm'))
      (UnpackedFloat.mul .binary64 (.finite s m e hm) (.finite s' m' e' hm')) := by
  have hproduct : ((m * m' : ℕ) : ℝ) * 2 ^ (e + e') = m * 2 ^ e * (m' * 2 ^ e') := by
    rw [zpow_add₀ two_ne_zero]
    push_cast
    ring
  have hunit : e + e' ≤ quantum ((m * m' : ℕ) * 2 ^ (e + e')) := by
    rcases hbits with hmany | hsmall
    · refine le_quantum_of_le_abs ?_
      have hcast : (2 : ℝ) ^ (52 : ℤ) ≤ (m * m' : ℕ) := by exact_mod_cast hmany
      rw [abs_of_nonneg (by positivity), add_comm, zpow_add₀ two_ne_zero]
      exact mul_le_mul_of_nonneg_right hcast (zpow_pos two_pos _).le
    · exact hsmall.trans (le_quantum _)
  have hrounded := rounded_roundWithAccuracy_exact (s * s') (Nat.mul_pos hm hm') hunit
  rw [hproduct, signed_mul] at hrounded
  exact hrounded

/-- The product of two numbers is rounded. -/
theorem rounded_mul {f g : UnpackedFloat} (hf : IsNumber f) (hg : IsNumber g) :
    Rounded (value f * value g) (UnpackedFloat.mul .binary64 f g) := by
  cases hf with
  | zero s =>
      rw [value_zero, zero_mul]
      cases hg with
      | zero | finite => exact ⟨.zero _, by rw [rnd_zero]; rfl⟩
  | @finite s m e hm hf =>
      cases hg with
      | zero s' =>
          rw [value_zero, mul_zero]
          exact ⟨.zero _, by rw [rnd_zero]; rfl⟩
      | @finite s' m' e' hm' hg =>
          refine rounded_mul_finite s s' e e' hm hm' ?_
          rcases hf.normal with hmany | hleast
          · exact .inl (hmany.trans (Nat.le_mul_of_pos_right m hm'))
          rcases hg.normal with hmany | hleast'
          · exact .inl (hmany.trans (Nat.le_mul_of_pos_left m' hm))
          · exact .inr (by omega)

/-! ### Quotients -/

/-- A quotient of counts is described by its whole part and by how twice the remainder compares with
the divisor. -/
theorem describes_quotient (m : ℕ) {n : ℕ} (hn : 0 < n) :
    Describes (.ofMantissaAndAccuracy (m / n) (accuracyOfFraction (m % n) n)) ((m : ℝ) / n) := by
  have hn' : (0 : ℝ) < n := by exact_mod_cast hn
  have hsplit : (m : ℝ) / n = (m / n : ℕ) + (m % n : ℕ) / n := by
    rw [div_eq_iff hn'.ne', add_mul, div_mul_cancel₀ _ hn'.ne']
    exact_mod_cast (Nat.div_add_mod' m n).symm
  have hlt : ((m % n : ℕ) : ℝ) < n := by exact_mod_cast Nat.mod_lt m hn
  rw [hsplit, accuracyOfFraction]
  generalize m % n = rest at hlt ⊢
  generalize m / n = whole
  split_ifs with hzero
  · rw [hzero, Nat.cast_zero, zero_div, add_zero]
    exact describes_exact whole
  · have hpos : (0 : ℝ) < rest / n := by
      have : (0 : ℝ) < rest := by exact_mod_cast Nat.pos_of_ne_zero hzero
      positivity
    refine describes_inexact (by linarith) (by linarith [(div_lt_one hn').mpr hlt]) ?_
    cases hcompare : compare (2 * rest) n with
    | lt =>
        have htwice : 2 * (rest : ℝ) < n := by exact_mod_cast Nat.compare_eq_lt.mp hcompare
        have hhalf : (rest : ℝ) / n < 1 / 2 := by
          rw [div_lt_div_iff₀ hn' two_pos]
          linarith
        exact add_lt_add_right hhalf _
    | eq =>
        have htwice : 2 * (rest : ℝ) = n := by exact_mod_cast Nat.compare_eq_eq.mp hcompare
        have hhalf : (rest : ℝ) / n = 1 / 2 := by
          rw [div_eq_div_iff hn'.ne' two_ne_zero]
          linarith
        exact congrArg _ hhalf
    | gt =>
        have htwice : (n : ℝ) < 2 * rest := by exact_mod_cast Nat.compare_eq_gt.mp hcompare
        have hhalf : 1 / 2 < (rest : ℝ) / n := by
          rw [div_lt_div_iff₀ two_pos hn']
          linarith
        exact add_lt_add_right hhalf _

/-- The unit of a quotient is not below the exponent that division aims at. -/
theorem le_quantum_quotient {m m' : ℕ} (e e' : ℤ) (hm : 0 < m) (hm' : 0 < m') :
    Format.binary64.targetExponent (totalExponent m e - totalExponent m' e') ≤
      quantum (m * 2 ^ e / (m' * 2 ^ e')) := by
  have htarget : Format.binary64.targetExponent (totalExponent m e - totalExponent m' e') =
      max ((m.log2 + e) - (m'.log2 + 1 + e') - 52) (-1074) := by
    rw [targetExponent_eq, totalExponent, totalExponent]
    omega
  rw [htarget]
  refine max_le (le_quantum_of_le_abs ?_) (le_quantum _)
  have hnum : (2 : ℝ) ^ (m.log2 + e) ≤ m * 2 ^ e := by
    rw [zpow_add₀ two_ne_zero]
    exact mul_le_mul_of_nonneg_right (zpow_log2_le hm) (zpow_pos two_pos e).le
  have hden : (m' : ℝ) * 2 ^ e' ≤ 2 ^ (m'.log2 + 1 + e') := by
    rw [zpow_add₀ two_ne_zero]
    exact mul_le_mul_of_nonneg_right ((le_add_of_nonneg_right zero_le_one).trans
      (lt_zpow_log2 m')) (zpow_pos two_pos e').le
  rw [sub_add_cancel, abs_of_nonneg (by positivity), zpow_sub₀ two_ne_zero]
  exact div_le_div₀ (by positivity) hnum (by positivity) hden

/-- The quotient of two counts of powers of two is rounded. -/
theorem rounded_div_finite {s s' : Sign} {m m' : ℕ} {e e' : ℤ} {hm : 0 < m} {hm' : 0 < m'} :
    Rounded (value (.finite s m e hm) / value (.finite s' m' e' hm'))
      (UnpackedFloat.div .binary64 (.finite s m e hm) (.finite s' m' e' hm')) := by
  have hquantum := le_quantum_quotient e e' hm hm'
  obtain ⟨target, htarget⟩ : ∃ target, target = min (e - e')
      (Format.binary64.targetExponent (totalExponent m e - totalExponent m' e')) := ⟨_, rfl⟩
  have hle : target ≤ e - e' := htarget.trans_le (min_le_left _ _)
  have hle' := (htarget.trans_le (min_le_right _ _)).trans hquantum
  have hshift : ((m <<< (e - e' - target).toNat : ℕ) : ℝ) = m * 2 ^ (e - e' - target) := by
    rw [Nat.shiftLeft_eq]
    push_cast
    rw [← zpow_natCast, Int.toNat_of_nonneg (by omega)]
  have hquotient : ((m <<< (e - e' - target).toNat : ℕ) : ℝ) / m' * 2 ^ target =
      m * 2 ^ e / (m' * 2 ^ e') := by
    rw [hshift, zpow_sub₀ two_ne_zero, zpow_sub₀ two_ne_zero]
    field_simp
  have hpos : (0 : ℝ) < (m <<< (e - e' - target).toNat : ℕ) / m' := by
    rw [hshift]
    positivity
  have hrounded := rounded_roundWithAccuracy (s / s')
    (describes_quotient (m <<< (e - e' - target).toNat) hm') hpos (by rwa [hquotient])
  rw [hquotient, signed_div] at hrounded
  unfold UnpackedFloat.div divCore
  simp only [← htarget]
  exact hrounded

/-- The quotient of two numbers is rounded, where the divisor is not zero. -/
theorem rounded_div {f g : UnpackedFloat} (hf : IsNumber f) (hg : IsNumber g)
    (hne : value g ≠ 0) : Rounded (value f / value g) (UnpackedFloat.div .binary64 f g) := by
  cases hg with
  | zero => exact absurd rfl hne
  | finite hg =>
      cases hf with
      | zero s =>
          rw [value_zero, zero_div]
          exact ⟨.zero _, by rw [rnd_zero]; rfl⟩
      | finite hf => exact rounded_div_finite

/-! ### Square roots -/

/-- A square root of a count is described by its whole part, and by whether the remainder is more
than that. -/
theorem describes_sqrt (m : ℕ) :
    Describes (.ofMantissaAndAccuracy m.sqrt (if m - m.sqrt * m.sqrt = 0 then .exact
      else .inexact (if m - m.sqrt * m.sqrt ≤ m.sqrt then .lt else .gt))) (√(m : ℝ)) := by
  have hle := Nat.sqrt_le m
  have hlt : m < (m.sqrt + 1) * (m.sqrt + 1) := Nat.lt_succ_sqrt m
  generalize m.sqrt = root at hle hlt ⊢
  have hroot : (0 : ℝ) ≤ root := Nat.cast_nonneg root
  split_ifs with hexact hbelow
  · have hsquare : m = root * root := by omega
    rw [hsquare, Nat.cast_mul, Real.sqrt_mul_self hroot]
    exact describes_exact root
  · have hlow : root * root + 1 ≤ m := by omega
    have hhigh : m ≤ root * root + root := by omega
    refine describes_inexact ?_ ?_ ?_
    · refine (Real.lt_sqrt hroot).mpr ?_
      have : (root * root + 1 : ℝ) ≤ m := by exact_mod_cast hlow
      nlinarith
    · refine (Real.sqrt_lt' (by positivity)).mpr ?_
      have : (m : ℝ) < (root + 1) * (root + 1) := by exact_mod_cast hlt
      nlinarith
    · refine (Real.sqrt_lt' (by positivity)).mpr ?_
      have : (m : ℝ) ≤ root * root + root := by exact_mod_cast hhigh
      nlinarith
  · have hlow : root * root + root + 1 ≤ m := by omega
    have hmore : (root * root + root + 1 : ℝ) ≤ m := by exact_mod_cast hlow
    refine describes_inexact ?_ ?_ ?_
    · refine (Real.lt_sqrt hroot).mpr ?_
      nlinarith
    · refine (Real.sqrt_lt' (by positivity)).mpr ?_
      have : (m : ℝ) < (root + 1) * (root + 1) := by exact_mod_cast hlt
      nlinarith
    · refine (Real.lt_sqrt (by positivity)).mpr ?_
      nlinarith

/-- The unit of a square root is not below the exponent that is aimed at. -/
theorem le_quantum_sqrt {m : ℕ} {e : ℤ} (hm : 0 < m) :
    Format.binary64.targetExponent ((totalExponent m e + 1).ediv 2) ≤ quantum (√(m * 2 ^ e)) := by
  have htarget : Format.binary64.targetExponent ((totalExponent m e + 1).ediv 2) =
      max ((m.log2 + e) / 2 - 52) (-1074) := by
    rw [targetExponent_eq, totalExponent]
    have hdiv : ((m.log2 : ℤ) + 1 + e + 1).ediv 2 = (m.log2 + e) / 2 + 1 := by
      show ((m.log2 : ℤ) + 1 + e + 1) / 2 = _
      omega
    omega
  rw [htarget]
  refine max_le (le_quantum_of_le_abs ?_) (le_quantum _)
  rw [sub_add_cancel, abs_of_nonneg (Real.sqrt_nonneg _)]
  refine Real.le_sqrt_of_sq_le ?_
  calc ((2 : ℝ) ^ ((m.log2 + e) / 2 : ℤ)) ^ 2 = 2 ^ ((m.log2 + e) / 2 * 2 : ℤ) := by
        rw [zpow_mul, zpow_ofNat]
    _ ≤ 2 ^ (m.log2 + e : ℤ) := zpow_le_zpow_right₀ one_le_two (by omega)
    _ = 2 ^ (m.log2 : ℤ) * 2 ^ e := zpow_add₀ two_ne_zero _ _
    _ ≤ m * 2 ^ e := mul_le_mul_of_nonneg_right (zpow_log2_le hm) (zpow_pos two_pos e).le

/-- The square root of a number that is not negative is rounded. -/
theorem rounded_sqrt {f : UnpackedFloat} (hf : IsNumber f) (hnonneg : 0 ≤ value f) :
    Rounded (√(value f)) (UnpackedFloat.sqrt .binary64 f) := by
  cases hf with
  | zero s =>
      rw [value_zero, Real.sqrt_zero]
      exact ⟨.zero s, by rw [rnd_zero]; rfl⟩
  | @finite s m e hm hf =>
      cases s with
      | negative =>
          have hneg : value (.finite .negative m e hm) < 0 :=
            neg_neg_of_pos (by positivity : (0 : ℝ) < m * 2 ^ e)
          exact absurd hnonneg (not_le.mpr hneg)
      | positive =>
          have hquantum := le_quantum_sqrt (e := e) hm
          obtain ⟨target, htarget⟩ : ∃ target, target = min (e.ediv 2)
              (Format.binary64.targetExponent ((totalExponent m e + 1).ediv 2)) := ⟨_, rfl⟩
          have hle : target ≤ e / 2 := htarget.trans_le (min_le_left _ _)
          have hle' := (htarget.trans_le (min_le_right _ _)).trans hquantum
          have hshift : ((m <<< (e - 2 * target).toNat : ℕ) : ℝ) = m * 2 ^ (e - 2 * target) := by
            rw [Nat.shiftLeft_eq]
            push_cast
            rw [← zpow_natCast, Int.toNat_of_nonneg (by omega)]
          have hroot : √((m <<< (e - 2 * target).toNat : ℕ) : ℝ) * 2 ^ target =
              √(m * 2 ^ e) := by
            have hunit : (2 : ℝ) ^ target = √(2 ^ (2 * target)) := by
              rw [mul_comm, zpow_mul, zpow_ofNat, Real.sqrt_sq (zpow_pos two_pos _).le]
            rw [hunit, ← Real.sqrt_mul (by positivity), hshift, mul_assoc, ← zpow_add₀ two_ne_zero,
              sub_add_cancel]
          have hpos : 0 < √((m <<< (e - 2 * target).toNat : ℕ) : ℝ) := by
            rw [Real.sqrt_pos, hshift]
            positivity
          have hrounded := rounded_roundWithAccuracy .positive
            (describes_sqrt (m <<< (e - 2 * target).toNat)) hpos (by rwa [hroot])
          rw [hroot] at hrounded
          unfold UnpackedFloat.sqrt sqrtCore
          simp only [← htarget]
          exact hrounded

/-! ### Infinities -/

/-- A float is a number or an infinity. -/
def IsExtended (f : UnpackedFloat) : Prop :=
  IsNumber f ∨ ∃ s, f = .infinity s

variable {f g : UnpackedFloat}

theorem IsExtended.neg (h : IsExtended f) : IsExtended f.neg := by
  rcases h with hnumber | ⟨s, rfl⟩
  · exact .inl hnumber.neg
  · exact .inr ⟨-s, rfl⟩

/-- A number and an infinity add to an infinity. -/
theorem isExtended_add (hf : IsNumber f) (hg : IsExtended g) :
    IsExtended (UnpackedFloat.add .binary64 f g) := by
  rcases hg with hnumber | ⟨s, rfl⟩
  · exact .inl (rounded_add hf hnumber).isNumber
  · cases hf with
    | zero | finite => exact .inr ⟨s, rfl⟩

theorem isExtended_sub (hf : IsNumber f) (hg : IsExtended g) :
    IsExtended (UnpackedFloat.sub .binary64 f g) := by
  rw [unpacked_sub_eq_add_neg]
  exact isExtended_add hf hg.neg

/-- A number that is not zero is divided to a number or an infinity, and so is zero by what is not
zero. -/
theorem isExtended_div (hf : IsNumber f) (hg : IsExtended g)
    (hne : value f ≠ 0 ∨ IsNumber g ∧ value g ≠ 0) :
    IsExtended (UnpackedFloat.div .binary64 f g) := by
  rcases hg with hnumber | ⟨s, rfl⟩
  · by_cases hzero : value g = 0
    · have hf' := hne.resolve_right fun h => h.2 hzero
      cases hnumber with
      | finite => exact absurd hzero value_finite_ne_zero
      | zero s =>
          cases hf with
          | zero => exact absurd rfl hf'
          | @finite s' => exact .inr ⟨s' / s, rfl⟩
    · exact .inl (rounded_div hf hnumber hzero).isNumber
  · cases hf with
    | @zero s' | @finite s' => exact .inl (.zero (s' / s))

/-! ### The order -/

/-- A larger exponent is a larger number. -/
theorem Canonical.lt_of_exponent_lt {m m' : ℕ} {e e' : ℤ} (h : Canonical m e)
    (h' : Canonical m' e') (hlt : e < e') : (m : ℝ) * 2 ^ e < m' * 2 ^ e' := by
  have hnormal : 2 ^ 52 ≤ m' := h'.normal.resolve_right (by have := h.le_exponent; omega)
  have hm : (m : ℝ) < 2 ^ (53 : ℤ) := by exact_mod_cast h.mantissa_lt
  have hm' : (2 : ℝ) ^ (52 : ℤ) ≤ m' := by exact_mod_cast hnormal
  calc (m : ℝ) * 2 ^ e < 2 ^ (53 : ℤ) * 2 ^ e := mul_lt_mul_of_pos_right hm (zpow_pos two_pos e)
    _ = 2 ^ (53 + e) := (zpow_add₀ two_ne_zero _ _).symm
    _ ≤ 2 ^ (52 + e') := zpow_le_zpow_right₀ one_le_two (by omega)
    _ = 2 ^ (52 : ℤ) * 2 ^ e' := zpow_add₀ two_ne_zero _ _
    _ ≤ m' * 2 ^ e' := mul_le_mul_of_nonneg_right hm' (zpow_pos two_pos e').le

/-- Canonical forms are ordered by their exponents first. -/
theorem Canonical.compare_eq_lt_iff {m m' : ℕ} {e e' : ℤ} (h : Canonical m e)
    (h' : Canonical m' e') : (compare e e').then (compare m m') = .lt ↔
      (m : ℝ) * 2 ^ e < m' * 2 ^ e' := by
  rcases lt_trichotomy e e' with hlt | rfl | hgt
  · rw [Int.compare_eq_lt.mpr hlt]
    exact iff_of_true rfl (h.lt_of_exponent_lt h' hlt)
  · rw [Int.compare_eq_eq.mpr rfl, mul_lt_mul_iff_left₀ (zpow_pos two_pos e), Nat.cast_lt]
    exact Nat.compare_eq_lt
  · rw [Int.compare_eq_gt.mpr hgt]
    exact iff_of_false Ordering.noConfusion (not_lt.mpr (h'.lt_of_exponent_lt h hgt).le)

theorem Canonical.compare_eq_gt_iff {m m' : ℕ} {e e' : ℤ} (h : Canonical m e)
    (h' : Canonical m' e') : (compare e e').then (compare m m') = .gt ↔
      (m' : ℝ) * 2 ^ e' < m * 2 ^ e := by
  have hexponent : compare e e' = (compare e' e).swap := Std.OrientedOrd.eq_swap
  have hmantissa : compare m m' = (compare m' m).swap := Std.OrientedOrd.eq_swap
  rw [hexponent, hmantissa, ← Ordering.swap_then, Ordering.swap_eq_gt, h'.compare_eq_lt_iff h]

/-- Floats are ordered as the numbers they denote. -/
theorem compare_eq_lt_iff {f g : UnpackedFloat} (hf : IsNumber f) (hg : IsNumber g) :
    f.compare g = some .lt ↔ value f < value g := by
  have hpos {m : ℕ} {e : ℤ} (hm : 0 < m) : (0 : ℝ) < m * 2 ^ e := by positivity
  cases hf with
  | zero s =>
      cases hg with
      | zero s' => exact iff_of_false (by simp [UnpackedFloat.compare]) (lt_irrefl _)
      | @finite s' m' e' hm' hg =>
          cases s'
          · exact iff_of_false (by simp [UnpackedFloat.compare])
              (not_lt.mpr (neg_nonpos.mpr (hpos hm').le))
          · exact iff_of_true rfl (hpos hm')
  | @finite s m e hm hf =>
      cases hg with
      | zero s' =>
          cases s
          · exact iff_of_true rfl (neg_neg_of_pos (hpos hm))
          · exact iff_of_false (by simp [UnpackedFloat.compare]) (not_lt.mpr (hpos hm).le)
      | @finite s' m' e' hm' hg =>
          cases s <;> cases s'
          · simp only [UnpackedFloat.compare, Option.some.injEq, Ordering.swap_eq_lt, value, signed,
              neg_lt_neg_iff]
            exact hf.compare_eq_gt_iff hg
          · exact iff_of_true rfl ((neg_neg_of_pos (hpos hm)).trans (hpos hm'))
          · exact iff_of_false (by simp [UnpackedFloat.compare])
              (not_lt.mpr ((neg_neg_of_pos (hpos hm')).trans (hpos hm)).le)
          · simp only [UnpackedFloat.compare, Option.some.injEq]
            exact hf.compare_eq_lt_iff hg

/-- Canonical forms of one number are one. -/
theorem Canonical.eq_of_value_eq {m m' : ℕ} {e e' : ℤ} (h : Canonical m e) (h' : Canonical m' e')
    (heq : (m : ℝ) * 2 ^ e = m' * 2 ^ e') : m = m' ∧ e = e' := by
  rcases lt_trichotomy e e' with hlt | rfl | hgt
  · exact absurd heq (h.lt_of_exponent_lt h' hlt).ne
  · exact ⟨by exact_mod_cast mul_right_cancel₀ (zpow_pos two_pos e).ne' heq, rfl⟩
  · exact absurd heq (h'.lt_of_exponent_lt h hgt).ne'

/-- Floats of one number that is not zero are one float. -/
theorem eq_of_value_eq {f g : UnpackedFloat} (hf : IsNumber f) (hg : IsNumber g)
    (heq : value f = value g) (hne : value f ≠ 0) : f = g := by
  have hpos {m : ℕ} {e : ℤ} (hm : 0 < m) : (0 : ℝ) < m * 2 ^ e := by positivity
  cases hf with
  | zero s => exact absurd rfl hne
  | @finite s m e hm hf =>
      cases hg with
      | zero s' => exact absurd heq hne
      | @finite s' m' e' hm' hg =>
          cases s <;> cases s'
          · obtain ⟨rfl, rfl⟩ := hf.eq_of_value_eq hg (neg_inj.mp heq)
            rfl
          · exact absurd heq ((neg_neg_of_pos (hpos hm)).trans (hpos hm')).ne
          · exact absurd heq ((neg_neg_of_pos (hpos hm')).trans (hpos hm)).ne'
          · obtain ⟨rfl, rfl⟩ := hf.eq_of_value_eq hg heq
            rfl

end MarketSignals.Binary64
