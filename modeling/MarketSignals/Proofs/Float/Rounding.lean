import Mathlib.Algebra.Order.Archimedean.Real.Basic
import Mathlib.Data.Int.Log
import Mathlib.Tactic.Linarith
import Mathlib.Tactic.Ring
import Mathlib.Tactic.FieldSimp
import Mathlib.Tactic.Positivity

/-!
# Rounding real numbers

A double precision float denotes a multiple of a power of two. Which power it is depends on the size
of the number: there are 53 bits to a number, and no number has bits below `2 ^ (-1074)`. Rounding
takes the nearest such multiple, and of two as near the one with an even count.

There is no largest number here. Where a rounded number is too large for a float is said where floats
are taken to real numbers.

## Main results

* `rnd_mono`: rounding keeps the order.
* `rnd_of_representable`: what can be represented is not changed.
* `abs_rnd_sub_le`: the error is at most half a unit in the last place.
* `rnd_eq_of_even`: an even count attracts what is half a unit away.
-/

namespace MarketSignals.Binary64

/-! ### Nearest integers -/

/-- The nearest integer, and of two as near the even one. -/
noncomputable def roundEven (x : ℝ) : ℤ :=
  if Int.fract x < 1 / 2 then ⌊x⌋
  else if 1 / 2 < Int.fract x then ⌊x⌋ + 1
  else ⌊x⌋ + ⌊x⌋ % 2

/-- An integer is nearest where it is less than a half away, or just a half and even. -/
def IsNearest (x : ℝ) (n : ℤ) : Prop :=
  |x - n| < 1 / 2 ∨ |x - n| = 1 / 2 ∧ Even n

theorem isNearest_roundEven (x : ℝ) : IsNearest x (roundEven x) := by
  have hfloor : x = ⌊x⌋ + Int.fract x := (Int.floor_add_fract x).symm
  have hnonneg := Int.fract_nonneg x
  have hlt := Int.fract_lt_one x
  rw [roundEven]
  split_ifs with hbelow habove
  · exact .inl (by rw [abs_lt]; constructor <;> linarith)
  · exact .inl (by push_cast; rw [abs_lt]; constructor <;> linarith)
  · have hhalf : Int.fract x = 1 / 2 := le_antisymm (not_lt.mp habove) (not_lt.mp hbelow)
    rcases Int.emod_two_eq_zero_or_one ⌊x⌋ with heven | hodd
    · rw [heven, add_zero]
      refine .inr ⟨?_, Int.even_iff.mpr heven⟩
      rw [Int.self_sub_floor, hhalf, abs_of_pos (by norm_num)]
    · rw [hodd]
      refine .inr ⟨?_, (Int.odd_iff.mpr hodd).add_one⟩
      push_cast
      rw [← sub_sub, Int.self_sub_floor, hhalf, abs_of_neg (by norm_num)]
      norm_num

/-- Nearest integers follow the order of the numbers. -/
theorem IsNearest.le {x y : ℝ} {m n : ℤ} (hm : IsNearest x m) (hn : IsNearest y n) (h : x ≤ y) :
    m ≤ n := by
  by_contra hlt
  have hgap : (n : ℝ) + 1 ≤ m := by exact_mod_cast not_le.mp hlt
  have hx : |x - m| ≤ 1 / 2 := hm.elim le_of_lt fun h => h.1.le
  have hy : |y - n| ≤ 1 / 2 := hn.elim le_of_lt fun h => h.1.le
  rw [abs_le] at hx hy
  -- The two are neighbours and the number is half way between them, so both would be even.
  have hnext : (m : ℝ) = n + 1 := by linarith
  have hxhalf : ¬ |x - m| < 1 / 2 := fun hlt => by
    rw [abs_lt] at hlt
    linarith
  have hyhalf : ¬ |y - n| < 1 / 2 := fun hlt => by
    rw [abs_lt] at hlt
    linarith
  have hmeven : Even m := (hm.resolve_left hxhalf).2
  have hneven : Even n := (hn.resolve_left hyhalf).2
  have hsucc : m = n + 1 := by exact_mod_cast hnext
  rw [hsucc] at hmeven
  exact Int.not_even_iff_odd.mpr hneven.add_one hmeven

theorem roundEven_eq_iff {x : ℝ} {n : ℤ} : roundEven x = n ↔ IsNearest x n := by
  constructor
  · rintro rfl
    exact isNearest_roundEven x
  · intro h
    exact le_antisymm ((isNearest_roundEven x).le h le_rfl) (h.le (isNearest_roundEven x) le_rfl)

theorem roundEven_mono {x y : ℝ} (h : x ≤ y) : roundEven x ≤ roundEven y :=
  (isNearest_roundEven x).le (isNearest_roundEven y) h

theorem abs_roundEven_sub_le (x : ℝ) : |roundEven x - x| ≤ 1 / 2 := by
  rw [abs_sub_comm]
  exact (isNearest_roundEven x).elim le_of_lt fun h => h.1.le

@[simp] theorem roundEven_intCast (n : ℤ) : roundEven n = n :=
  roundEven_eq_iff.mpr (.inl (by norm_num))

@[simp] theorem roundEven_neg (x : ℝ) : roundEven (-x) = -roundEven x := by
  refine roundEven_eq_iff.mpr ?_
  have hdistance : |-x - ((-roundEven x : ℤ) : ℝ)| = |x - roundEven x| := by
    push_cast
    rw [← abs_neg]
    ring_nf
  rw [IsNearest, hdistance, even_neg]
  exact isNearest_roundEven x

/-- An even number attracts what is at most a half away. -/
theorem roundEven_eq_of_even {x : ℝ} {n : ℤ} (hn : Even n) (h : |x - n| ≤ 1 / 2) :
    roundEven x = n :=
  roundEven_eq_iff.mpr (h.lt_or_eq.imp_right fun heq => ⟨heq, hn⟩)

/-! ### The unit in the last place -/

/-- The exponent of the unit in the last place of a number. -/
noncomputable def quantum (x : ℝ) : ℤ :=
  max (Int.log 2 |x| - 52) (-1074)

@[simp] theorem quantum_neg (x : ℝ) : quantum (-x) = quantum x := by
  rw [quantum, quantum, abs_neg]

theorem le_quantum (x : ℝ) : -1074 ≤ quantum x :=
  le_max_right _ _

/-- A number is less than `2 ^ 53` of its units. -/
theorem abs_lt_zpow_quantum (x : ℝ) : |x| < 2 ^ (quantum x + 53) := by
  refine (Int.lt_zpow_succ_log_self one_lt_two |x|).trans_le ?_
  have hle : Int.log 2 |x| - 52 ≤ quantum x := le_max_left _ _
  exact zpow_le_zpow_right₀ one_le_two (by omega)

/-- A number that is not among the smallest is at least `2 ^ 52` of its units. -/
theorem zpow_quantum_le_abs {x : ℝ} (hx : x ≠ 0) (h : -1074 < quantum x) :
    2 ^ (quantum x + 52) ≤ |x| := by
  have hlog : quantum x + 52 = Int.log 2 |x| := by
    rw [quantum] at h ⊢
    omega
  rw [hlog]
  exact Int.zpow_log_le_self one_lt_two (abs_pos.mpr hx)

/-- The unit of a number below a power of two. -/
theorem quantum_le_of_abs_lt {x : ℝ} {e : ℤ} (hx : x ≠ 0) (he : -1074 ≤ e)
    (h : |x| < 2 ^ (e + 53)) : quantum x ≤ e := by
  have hlog : Int.log 2 |x| < e + 53 :=
    (Int.lt_zpow_iff_log_lt one_lt_two (abs_pos.mpr hx)).mp h
  exact max_le (by omega) he

/-- The unit of a number from a power of two on. -/
theorem le_quantum_of_le_abs {x : ℝ} {e : ℤ} (h : 2 ^ (e + 52) ≤ |x|) : e ≤ quantum x := by
  have hpos : 0 < |x| := (zpow_pos two_pos _).trans_le h
  have hlog : e + 52 ≤ Int.log 2 |x| := (Int.zpow_le_iff_le_log one_lt_two hpos).mp h
  exact le_max_of_le_left (by omega)

theorem quantum_mono {x y : ℝ} (hx : x ≠ 0) (h : |x| ≤ |y|) : quantum x ≤ quantum y :=
  max_le_max (Int.sub_le_sub_right (Int.log_mono_right (abs_pos.mpr hx) h) _) le_rfl

/-! ### Grids -/

/-- A number is a multiple of a power of two. -/
def OnGrid (e : ℤ) (x : ℝ) : Prop :=
  ∃ count : ℤ, x = count * 2 ^ e

theorem OnGrid.neg {e : ℤ} {x : ℝ} (h : OnGrid e x) : OnGrid e (-x) := by
  obtain ⟨count, rfl⟩ := h
  exact ⟨-count, by push_cast; ring⟩

theorem OnGrid.add {e : ℤ} {x y : ℝ} (hx : OnGrid e x) (hy : OnGrid e y) : OnGrid e (x + y) := by
  obtain ⟨count, rfl⟩ := hx
  obtain ⟨count', rfl⟩ := hy
  exact ⟨count + count', by push_cast; ring⟩

theorem OnGrid.sub {e : ℤ} {x y : ℝ} (hx : OnGrid e x) (hy : OnGrid e y) : OnGrid e (x - y) := by
  rw [sub_eq_add_neg]
  exact hx.add hy.neg

/-- A multiple of a power of two is one of every smaller power. -/
theorem OnGrid.mono {e e' : ℤ} {x : ℝ} (h : OnGrid e x) (hle : e' ≤ e) : OnGrid e' x := by
  obtain ⟨count, rfl⟩ := h
  refine ⟨count * 2 ^ (e - e').toNat, ?_⟩
  have hsplit : (2 : ℝ) ^ e = 2 ^ (e - e').toNat * 2 ^ e' := by
    rw [← zpow_natCast, Int.toNat_of_nonneg (by omega), ← zpow_add₀ two_ne_zero]
    congr 1
    omega
  push_cast
  rw [hsplit, mul_assoc]

theorem onGrid_zpow (e : ℤ) : OnGrid e (2 ^ e) :=
  ⟨1, by push_cast; ring⟩

/-! ### Rounding -/

/-- The nearest multiple of a number's unit in the last place. -/
noncomputable def rnd (x : ℝ) : ℝ :=
  roundEven (x / 2 ^ quantum x) * 2 ^ quantum x

@[simp] theorem rnd_zero : rnd 0 = 0 := by
  rw [rnd, zero_div, ← Int.cast_zero, roundEven_intCast, Int.cast_zero, zero_mul]

@[simp] theorem rnd_neg (x : ℝ) : rnd (-x) = -rnd x := by
  rw [rnd, rnd, quantum_neg, neg_div, roundEven_neg, Int.cast_neg, neg_mul]

theorem onGrid_rnd (x : ℝ) : OnGrid (quantum x) (rnd x) :=
  ⟨_, rfl⟩

/-- The error of rounding is at most half a unit. -/
theorem abs_rnd_sub_le (x : ℝ) : |rnd x - x| ≤ 2 ^ quantum x / 2 := by
  have hunit : (0 : ℝ) < 2 ^ quantum x := zpow_pos two_pos _
  have hscaled : rnd x - x = (roundEven (x / 2 ^ quantum x) - x / 2 ^ quantum x) * 2 ^ quantum x := by
    rw [rnd, sub_mul, div_mul_cancel₀ _ hunit.ne']
  rw [hscaled, abs_mul, abs_of_pos hunit]
  have hhalf := mul_le_mul_of_nonneg_right (abs_roundEven_sub_le (x / 2 ^ quantum x)) hunit.le
  linarith

theorem abs_rnd_sub_le_zpow {x : ℝ} {e : ℤ} (he : -1074 ≤ e) (h : |x| < 2 ^ (e + 53)) :
    |rnd x - x| ≤ 2 ^ e / 2 := by
  by_cases hx : x = 0
  · rw [hx, rnd_zero, sub_zero, abs_zero]
    exact div_nonneg (zpow_pos two_pos e).le two_pos.le
  · refine (abs_rnd_sub_le x).trans (div_le_div_of_nonneg_right ?_ two_pos.le)
    exact zpow_le_zpow_right₀ one_le_two (quantum_le_of_abs_lt hx he h)

/-- A number is not rounded beyond a multiple of its unit. -/
theorem rnd_le_of_onGrid {x z : ℝ} (hz : OnGrid (quantum x) z) (h : x ≤ z) : rnd x ≤ z := by
  obtain ⟨count, rfl⟩ := hz
  have hunit : (0 : ℝ) < 2 ^ quantum x := zpow_pos two_pos _
  have hle := roundEven_mono ((div_le_iff₀ hunit).mpr h)
  rw [roundEven_intCast] at hle
  exact mul_le_mul_of_nonneg_right (by exact_mod_cast hle) hunit.le

theorem le_rnd_of_onGrid {x z : ℝ} (hz : OnGrid (quantum x) z) (h : z ≤ x) : z ≤ rnd x := by
  have hneg := rnd_le_of_onGrid (x := -x) (z := -z) (by rw [quantum_neg]; exact hz.neg) (by linarith)
  rw [rnd_neg] at hneg
  linarith

/-- A multiple of its own unit is not changed. -/
theorem rnd_of_onGrid {x : ℝ} (h : OnGrid (quantum x) x) : rnd x = x :=
  le_antisymm (rnd_le_of_onGrid h le_rfl) (le_rnd_of_onGrid h le_rfl)

theorem rnd_nonneg {x : ℝ} (h : 0 ≤ x) : 0 ≤ rnd x :=
  le_rnd_of_onGrid ⟨0, by push_cast; ring⟩ h

theorem rnd_nonpos {x : ℝ} (h : x ≤ 0) : rnd x ≤ 0 :=
  rnd_le_of_onGrid ⟨0, by push_cast; ring⟩ h

/-- Rounding keeps the order of numbers that are not negative. -/
theorem rnd_mono_of_nonneg {x y : ℝ} (hx : 0 ≤ x) (h : x ≤ y) : rnd x ≤ rnd y := by
  rcases hx.eq_or_lt with rfl | hpos
  · rw [rnd_zero]
    exact rnd_nonneg h
  have hsize : |x| ≤ |y| := by rwa [abs_of_pos hpos, abs_of_pos (hpos.trans_le h)]
  rcases (quantum_mono hpos.ne' hsize).eq_or_lt with hsame | hless
  · -- The two are counted in one unit.
    have hunit : (0 : ℝ) < 2 ^ quantum y := zpow_pos two_pos _
    rw [rnd, rnd, hsame]
    have hle := roundEven_mono (div_le_div_of_nonneg_right h hunit.le)
    exact mul_le_mul_of_nonneg_right (by exact_mod_cast hle) hunit.le
  · -- A power of two lies between them.
    have hy : y ≠ 0 := (hpos.trans_le h).ne'
    have hunit : -1074 < quantum y := (le_quantum x).trans_lt hless
    have hbelow : x ≤ 2 ^ (quantum x + 53) := (le_abs_self x).trans (abs_lt_zpow_quantum x).le
    have habove : 2 ^ (quantum y + 52) ≤ y := by
      have hle := zpow_quantum_le_abs hy hunit
      rwa [abs_of_pos (hpos.trans_le h)] at hle
    have hgap : (2 : ℝ) ^ (quantum x + 53) ≤ 2 ^ (quantum y + 52) :=
      zpow_le_zpow_right₀ one_le_two (by omega)
    calc rnd x ≤ 2 ^ (quantum x + 53) :=
          rnd_le_of_onGrid ((onGrid_zpow _).mono (by omega)) hbelow
      _ ≤ 2 ^ (quantum y + 52) := hgap
      _ ≤ rnd y := le_rnd_of_onGrid ((onGrid_zpow _).mono (by omega)) habove

/-- Rounding keeps the order. -/
theorem rnd_mono {x y : ℝ} (h : x ≤ y) : rnd x ≤ rnd y := by
  rcases le_total 0 x with hx | hx
  · exact rnd_mono_of_nonneg hx h
  rcases le_total 0 y with hy | hy
  · exact (rnd_nonpos hx).trans (rnd_nonneg hy)
  · have hneg := rnd_mono_of_nonneg (neg_nonneg.mpr hy) (neg_le_neg h)
    rwa [rnd_neg, rnd_neg, neg_le_neg_iff] at hneg

/-! ### Numbers that can be represented -/

/-- A number can be represented where it is at most `2 ^ 53` times a power of two, with no bits below
the smallest unit. -/
def Representable (x : ℝ) : Prop :=
  ∃ e : ℤ, -1074 ≤ e ∧ OnGrid e x ∧ |x| ≤ 2 ^ (e + 53)

/-- What can be represented is a multiple of its unit. -/
theorem Representable.onGrid {x : ℝ} (h : Representable x) : OnGrid (quantum x) x := by
  obtain ⟨e, he, hgrid, hsize⟩ := h
  by_cases hzero : x = 0
  · exact ⟨0, by rw [hzero]; push_cast; ring⟩
  rcases hsize.lt_or_eq with hlt | heq
  · exact hgrid.mono (quantum_le_of_abs_lt hzero he hlt)
  · -- The number is a power of two, or the negative of one, and larger than its unit.
    have hunit : quantum x ≤ e + 53 := by
      refine quantum_le_of_abs_lt hzero (by omega) (heq.trans_lt ?_)
      exact zpow_lt_zpow_right₀ one_lt_two (by omega)
    have habs : OnGrid (quantum x) |x| := by
      rw [heq]
      exact (onGrid_zpow _).mono hunit
    rcases abs_choice x with hpos | hneg
    · rwa [hpos] at habs
    · have hflip := habs.neg
      rwa [hneg, neg_neg] at hflip

/-- What can be represented is not changed. -/
theorem rnd_of_representable {x : ℝ} (h : Representable x) : rnd x = x :=
  rnd_of_onGrid h.onGrid

theorem Representable.neg {x : ℝ} (h : Representable x) : Representable (-x) := by
  obtain ⟨e, he, hgrid, hsize⟩ := h
  exact ⟨e, he, hgrid.neg, by rwa [abs_neg]⟩

/-- What was rounded can be represented. -/
theorem representable_rnd (x : ℝ) : Representable (rnd x) := by
  refine ⟨quantum x, le_quantum x, onGrid_rnd x, ?_⟩
  have hpower : OnGrid (quantum x) ((2 : ℝ) ^ (quantum x + 53)) := (onGrid_zpow _).mono (by omega)
  obtain ⟨hbelow, habove⟩ := abs_le.mp (abs_lt_zpow_quantum x).le
  exact abs_le.mpr ⟨le_rnd_of_onGrid hpower.neg hbelow, rnd_le_of_onGrid hpower habove⟩

@[simp] theorem rnd_rnd (x : ℝ) : rnd (rnd x) = rnd x :=
  rnd_of_representable (representable_rnd x)

theorem representable_mul_zpow {n : ℕ} {e : ℤ} (hn : n ≤ 2 ^ 53) (he : -1074 ≤ e) :
    Representable (n * 2 ^ e) := by
  refine ⟨e, he, ⟨n, by rw [Int.cast_natCast]⟩, ?_⟩
  have hsize : (n : ℝ) ≤ 2 ^ (53 : ℤ) := by exact_mod_cast hn
  have hunit : (0 : ℝ) < 2 ^ e := zpow_pos two_pos e
  rw [abs_of_nonneg (mul_nonneg (Nat.cast_nonneg n) hunit.le), add_comm, zpow_add₀ two_ne_zero]
  exact mul_le_mul_of_nonneg_right hsize hunit.le

/-- A number can be represented after any number of doublings. -/
theorem Representable.two_pow_mul {x : ℝ} (h : Representable x) (k : ℕ) :
    Representable (2 ^ k * x) := by
  obtain ⟨e, he, ⟨count, hcount⟩, hsize⟩ := h
  have hdouble : (0 : ℝ) < 2 ^ k := pow_pos two_pos k
  refine ⟨e + k, by omega, ⟨count, ?_⟩, ?_⟩
  · rw [hcount, zpow_add₀ two_ne_zero, zpow_natCast]
    ring
  · rw [abs_mul, abs_of_pos hdouble, show e + k + 53 = k + (e + 53) by ring,
      zpow_add₀ two_ne_zero, zpow_natCast]
    exact mul_le_mul_of_nonneg_left hsize hdouble.le

theorem representable_natCast {n : ℕ} (h : n ≤ 2 ^ 53) : Representable n := by
  have hscaled := representable_mul_zpow h (e := 0) (by norm_num)
  rwa [zpow_zero, mul_one] at hscaled

theorem rnd_natCast {n : ℕ} (h : n ≤ 2 ^ 53) : rnd n = n :=
  rnd_of_representable (representable_natCast h)

@[simp] theorem rnd_one : rnd 1 = 1 := by
  exact_mod_cast rnd_natCast (n := 1) (by norm_num)

theorem representable_zpow {e : ℤ} (he : -1074 ≤ e) : Representable (2 ^ e) := by
  have hscaled := representable_mul_zpow (n := 1) (by norm_num) he
  rwa [Nat.cast_one, one_mul] at hscaled

/-- A number is not rounded beyond one that can be represented. -/
theorem rnd_le {x z : ℝ} (hz : Representable z) (h : x ≤ z) : rnd x ≤ z :=
  (rnd_mono h).trans_eq (rnd_of_representable hz)

theorem le_rnd {x z : ℝ} (hz : Representable z) (h : z ≤ x) : z ≤ rnd x :=
  (rnd_of_representable hz).symm.trans_le (rnd_mono h)

theorem abs_rnd (x : ℝ) : |rnd x| = rnd |x| := by
  rcases abs_cases x with ⟨habs, hx⟩ | ⟨habs, hx⟩
  · rw [habs, abs_of_nonneg (rnd_nonneg hx)]
  · rw [habs, rnd_neg, abs_of_nonpos (rnd_nonpos hx.le)]

theorem abs_rnd_le {x z : ℝ} (hz : Representable z) (h : |x| ≤ z) : |rnd x| ≤ z := by
  rw [abs_rnd]
  exact rnd_le hz h

/-! ### Ties -/

/-- A distance to a count of units, in units. -/
theorem abs_div_quantum_sub (x : ℝ) (count : ℤ) :
    |x / 2 ^ quantum x - count| = |x - count * 2 ^ quantum x| / 2 ^ quantum x := by
  have hunit : (0 : ℝ) < 2 ^ quantum x := zpow_pos two_pos _
  have hscaled : x / 2 ^ quantum x - count = (x - count * 2 ^ quantum x) / 2 ^ quantum x := by
    rw [sub_div, mul_div_cancel_right₀ _ hunit.ne']
  rw [hscaled, abs_div, abs_of_pos hunit]

/-- A count of units attracts what is less than half a unit away. -/
theorem rnd_eq_of_near {x : ℝ} {count : ℤ}
    (h : |x - count * 2 ^ quantum x| < 2 ^ quantum x / 2) : rnd x = count * 2 ^ quantum x := by
  have hunit : (0 : ℝ) < 2 ^ quantum x := zpow_pos two_pos _
  have hnear : |x / 2 ^ quantum x - count| < 1 / 2 := by
    rw [abs_div_quantum_sub, div_lt_iff₀ hunit]
    linarith
  rw [rnd, roundEven_eq_iff.mpr (.inl hnear)]

/-- An even count of units attracts what is at most half a unit away. -/
theorem rnd_eq_of_even {x : ℝ} {count : ℤ} (heven : Even count)
    (h : |x - count * 2 ^ quantum x| ≤ 2 ^ quantum x / 2) : rnd x = count * 2 ^ quantum x := by
  have hunit : (0 : ℝ) < 2 ^ quantum x := zpow_pos two_pos _
  have hnear : |x / 2 ^ quantum x - count| ≤ 1 / 2 := by
    rw [abs_div_quantum_sub, div_le_iff₀ hunit]
    linarith
  rw [rnd, roundEven_eq_of_even heven hnear]

end MarketSignals.Binary64
