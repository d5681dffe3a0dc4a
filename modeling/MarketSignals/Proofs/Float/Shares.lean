import MarketSignals.Proofs.Float.Bounds

/-!
# Shares of a number

A number is split in two shares, both shares are rounded, and their sum is rounded again. An
exponential average of equal numbers does this at every step. It ends where it began if the number
has a bit to spare.

Rounding moves the larger share by at most half its unit. The smaller share has bits below that, so
it takes up the difference but for half a unit of the larger one. The sum is then half a unit at most
from the number, and a number with a bit to spare has an even count of units, which attracts it.

With the least unit there are no bits below. There the shares are rounded to integers, and these add
up to the number unless both shares lie in the middle of two integers and the number is odd. Where
the weight of the smaller share is an odd count of `2 ^ (-53)`, an odd number has no such shares.

## Main results

* `rnd_add_rnd`: the rounded shares of an even count are rounded to the number.
* `rnd_add_rnd_least`: with the least unit the rounded shares add up to the number.
* `rnd_shares`: so an even count is restored from its shares.
* `denotes_weighted`: a weighted average of floats that are such counts restores them.
* `evenCount_of_triple`: a number whose triple is a float is such a count.
-/

namespace MarketSignals.Binary64

/-! ### Even counts -/

/-- A number attracts what is near, where its count of units is even or the distance is less than
half its unit. Here the number lies between `2 ^ 52` and `2 ^ 54` units. -/
theorem rnd_eq_of_onGrid_succ {x c : ℝ} {e : ℤ} (he : -1074 ≤ e) (hc : OnGrid (e + 1) c)
    (hlow : 2 ^ (e + 52) < c) (hhigh : c < 2 ^ (e + 54)) (h : |x - c| ≤ 2 ^ e / 2) : rnd x = c := by
  obtain ⟨count, rfl⟩ := hc
  have hunit : (0 : ℝ) < 2 ^ e := zpow_pos two_pos e
  have hdouble : (2 : ℝ) ^ (e + 1) = 2 * 2 ^ e := by rw [zpow_add_one₀ two_ne_zero, mul_comm]
  have hleast : (2 : ℝ) ^ (e + 52) = 2 ^ 52 * 2 ^ e := by
    rw [zpow_add₀ two_ne_zero, mul_comm]
    norm_num
  have hgreatest : (2 : ℝ) ^ (e + 54) = 2 ^ 54 * 2 ^ e := by
    rw [zpow_add₀ two_ne_zero, mul_comm]
    norm_num
  rw [hdouble, ← mul_assoc] at hlow hhigh h ⊢
  rw [hleast] at hlow
  rw [hgreatest] at hhigh
  -- The number is an even count of units, so it keeps two units away from both powers of two.
  have hmin : (2 : ℝ) ^ 52 + 2 ≤ count * 2 := by
    have hlt : ((2 ^ 51 : ℤ) : ℝ) < count := by
      push_cast
      linarith [lt_of_mul_lt_mul_right hlow hunit.le]
    have hle : 2 ^ 51 + 1 ≤ count := by exact_mod_cast hlt
    have hcast : ((2 ^ 51 + 1 : ℤ) : ℝ) ≤ count := by exact_mod_cast hle
    push_cast at hcast
    linarith
  have hmax : count * 2 + 2 ≤ (2 : ℝ) ^ 54 := by
    have hlt : (count : ℝ) < ((2 ^ 53 : ℤ) : ℝ) := by
      push_cast
      linarith [lt_of_mul_lt_mul_right hhigh hunit.le]
    have hle : count + 1 ≤ 2 ^ 53 := by exact_mod_cast hlt
    have hcast : (count : ℝ) + 1 ≤ ((2 ^ 53 : ℤ) : ℝ) := by exact_mod_cast hle
    push_cast at hcast
    linarith
  obtain ⟨hbelow, habove⟩ := abs_le.mp h
  have hxlow : 2 ^ 52 * 2 ^ e ≤ x := by
    linarith [mul_le_mul_of_nonneg_right hmin hunit.le]
  have hxhigh : x < 2 ^ 54 * 2 ^ e := by
    linarith [mul_le_mul_of_nonneg_right hmax hunit.le]
  have hpos : 0 < x := by linarith [mul_pos (pow_pos two_pos 52) hunit]
  have hfiner : e ≤ quantum x := le_quantum_of_le_abs (by rwa [abs_of_pos hpos, hleast])
  have hcoarser : quantum x ≤ e + 1 := by
    refine quantum_le_of_abs_lt hpos.ne' (by omega) ?_
    rwa [abs_of_pos hpos, show e + 1 + 53 = e + 54 by ring, hgreatest]
  rcases hfiner.eq_or_lt with heq | hlt
  · rw [heq] at h ⊢
    have heven : Even (count * 2) := even_two.mul_left count
    exact_mod_cast rnd_eq_of_even heven (by exact_mod_cast h)
  · have hquantum : (2 : ℝ) ^ quantum x = 2 * 2 ^ e := by
      rw [show quantum x = e + 1 by omega, hdouble]
    rw [mul_assoc, ← hquantum]
    refine rnd_eq_of_near ?_
    rw [hquantum, ← mul_assoc]
    linarith

/-- **The rounded shares of an even count are rounded to the number.** -/
theorem rnd_add_rnd {c x y : ℝ} (hsum : x + y = c) (hy : 0 < y) (hle : 4 * y ≤ c)
    (hc : OnGrid (quantum c + 1) c) (hx : -1074 < quantum x) : rnd (rnd x + rnd y) = c := by
  have hxpos : 0 < x := by linarith
  have hxsize := abs_lt_zpow_quantum x
  have hxleast := zpow_quantum_le_abs hxpos.ne' hx
  rw [abs_of_pos hxpos] at hxsize hxleast
  have hmono : quantum x ≤ quantum c := by
    refine quantum_mono hxpos.ne' ?_
    rw [abs_of_pos hxpos, abs_of_pos (by linarith)]
    linarith
  generalize hv : quantum x = v at *
  have hunit : (0 : ℝ) < 2 ^ v := zpow_pos two_pos v
  have hhalf : (2 : ℝ) ^ (v - 1) = 2 ^ v / 2 := zpow_sub_one₀ two_ne_zero v
  have hsplit : (2 : ℝ) ^ (v + 53) = 2 * 2 ^ (v + 52) := by
    rw [show v + 53 = v + 52 + 1 by ring, zpow_add_one₀ two_ne_zero, mul_comm]
  have hmany : 4 * 2 ^ v ≤ (2 : ℝ) ^ (v + 52) := by
    rw [zpow_add₀ two_ne_zero]
    linarith [mul_le_mul_of_nonneg_left (show (4 : ℝ) ≤ 2 ^ (52 : ℤ) by norm_num) hunit.le]
  have herror : |rnd x - x| ≤ 2 ^ v / 2 := hv ▸ abs_rnd_sub_le x
  obtain ⟨hbelow, habove⟩ := abs_le.mp herror
  -- What the rounded larger share leaves, with half its unit more or less, can be represented.
  have hrest : OnGrid (v - 1) (c - rnd x) :=
    ((hc.mono (by omega)).sub (hv ▸ onGrid_rnd x)).mono (by omega)
  have hstep : OnGrid (v - 1) ((2 : ℝ) ^ v / 2) := hhalf ▸ onGrid_zpow (v - 1)
  have hrepresentable : ∀ z, OnGrid (v - 1) z → |z| ≤ 2 ^ (v + 52) → Representable z :=
    fun z hgrid hsize => ⟨v - 1, by omega, hgrid, by rwa [show v - 1 + 53 = v + 52 by ring]⟩
  have hless := le_rnd (x := y) (hrepresentable _ (hrest.sub hstep)
    (abs_le.mpr ⟨by linarith, by linarith⟩)) (by linarith)
  have hmore := rnd_le (x := y) (hrepresentable _ (hrest.add hstep)
    (abs_le.mpr ⟨by linarith, by linarith⟩)) (by linarith)
  have hnear : |rnd x + rnd y - c| ≤ 2 ^ v / 2 := abs_le.mpr ⟨by linarith, by linarith⟩
  refine rnd_eq_of_onGrid_succ hx.le (hc.mono (by omega)) (by linarith) ?_ hnear
  rw [show v + 54 = v + 53 + 1 by ring, zpow_add_one₀ two_ne_zero]
  linarith

/-! ### The least unit -/

/-- Rounding an integer less a number leaves the rounded number, but for a tie with an odd integer. -/
theorem roundEven_sub {n : ℤ} {t : ℝ} (h : Even n ∨ |t - roundEven t| < 1 / 2) :
    roundEven (n - t) = n - roundEven t := by
  have hdistance : |(n - t : ℝ) - (n - roundEven t : ℤ)| = |t - roundEven t| := by
    push_cast
    rw [← abs_neg]
    congr 1
    ring
  rw [roundEven_eq_iff, IsNearest, hdistance]
  rcases isNearest_roundEven t with hnear | ⟨htie, heven⟩
  · exact .inl hnear
  · rcases h with hn | hnear
    · exact .inr ⟨htie, hn.sub heven⟩
    · exact .inl hnear

/-- **With the least unit, the rounded shares add up to the number.** The share is counted in units,
and where it lies in the middle of two counts, the number is even. -/
theorem rnd_add_rnd_least {x y : ℝ} {n : ℤ} (hsum : x + y = n * 2 ^ (-1074 : ℤ))
    (hx : quantum x = -1074) (hy : quantum y = -1074)
    (htie : Even n ∨ |y / 2 ^ (-1074 : ℤ) - roundEven (y / 2 ^ (-1074 : ℤ))| < 1 / 2) :
    rnd x + rnd y = n * 2 ^ (-1074 : ℤ) := by
  have hunit : (0 : ℝ) < 2 ^ (-1074 : ℤ) := zpow_pos two_pos _
  have hshare : x / 2 ^ (-1074 : ℤ) = n - y / 2 ^ (-1074 : ℤ) := by
    rw [eq_sub_iff_add_eq, ← add_div, hsum, mul_div_cancel_right₀ _ hunit.ne']
  rw [rnd, rnd, hx, hy, hshare, roundEven_sub htie]
  push_cast
  ring

/-! ### Bits to spare -/

/-- The count of units of a number is even, unless its unit is the least. -/
def EvenCount (c : ℝ) : Prop :=
  -1074 < quantum c → OnGrid (quantum c + 1) c

/-- A number whose triple can be represented has a bit to spare. -/
theorem evenCount_of_triple {c : ℝ} (hgrid : Representable c) (h : Representable (3 * c))
    (hpos : 0 < c) : EvenCount c := by
  intro hc
  have hleast := zpow_quantum_le_abs hpos.ne' hc
  rw [abs_of_pos hpos] at hleast
  have htriple : quantum c + 1 ≤ quantum (3 * c) := by
    refine le_quantum_of_le_abs ?_
    rw [abs_of_pos (by positivity), show quantum c + 1 + 52 = quantum c + 52 + 1 by ring,
      zpow_add_one₀ two_ne_zero]
    linarith
  obtain ⟨count, hcount⟩ := hgrid.onGrid
  obtain ⟨half, hhalf⟩ := h.onGrid.mono htriple
  generalize quantum c = e at *
  have hunit : (0 : ℝ) < 2 ^ e := zpow_pos two_pos e
  rw [zpow_add_one₀ two_ne_zero, hcount] at hhalf
  have heq : (3 * count : ℝ) = half * 2 := mul_right_cancel₀ hunit.ne' (by linarith)
  have hint : 3 * count = half * 2 := by exact_mod_cast heq
  have hdouble : count = (half - count) * 2 := by omega
  have hcast : (count : ℝ) = (half - count) * 2 := by exact_mod_cast hdouble
  refine ⟨half - count, ?_⟩
  rw [hcount, zpow_add_one₀ two_ne_zero]
  push_cast
  linear_combination (2 : ℝ) ^ e * hcast

/-- An odd count of `2 ^ (-53)` of an odd number is not in the middle of two integers. -/
theorem abs_sub_roundEven_lt {n : ℤ} {w : ℕ} (hn : Odd n) (hw : Odd w) :
    |(n * (w / 2 ^ 53) : ℝ) - roundEven (n * (w / 2 ^ 53))| < 1 / 2 := by
  refine (isNearest_roundEven _).elim id fun ⟨htie, _⟩ => ?_
  have hodd : Odd (n * w) := hn.mul (by exact_mod_cast hw)
  generalize roundEven (n * (w / 2 ^ 53)) = k at htie
  have heven : Even (n * w) := by
    rcases abs_eq (by norm_num) |>.mp htie with hhalf | hhalf
    · have heq : (n * w : ℝ) = 2 ^ 53 * k + 2 ^ 52 := by linarith
      have hint : n * w = 2 ^ 53 * k + 2 ^ 52 := by exact_mod_cast heq
      exact hint ▸ ⟨2 ^ 52 * k + 2 ^ 51, by ring⟩
    · have heq : (n * w : ℝ) = 2 ^ 53 * k - 2 ^ 52 := by linarith
      have hint : n * w = 2 ^ 53 * k - 2 ^ 52 := by exact_mod_cast heq
      exact hint ▸ ⟨2 ^ 52 * k - 2 ^ 51, by ring⟩
  exact absurd heven (Int.not_even_iff_odd.mpr hodd)

/-- **A number is restored from its rounded shares**, where its count of units is even and the weight
of one share is an odd count of `2 ^ (-53)` and at most a quarter. -/
theorem rnd_shares {c : ℝ} {w : ℕ} (hodd : Odd w) (hw : 4 * w ≤ 2 ^ 53) (hc : Representable c)
    (hpos : 0 < c) (heven : EvenCount c) :
    rnd (rnd (c * (1 - w / 2 ^ 53)) + rnd (c * (w / 2 ^ 53))) = c := by
  have hsum : c * (1 - w / 2 ^ 53) + c * (w / 2 ^ 53) = c := by ring
  have hquarter : 4 * (w / 2 ^ 53 : ℝ) ≤ 1 := by
    have hcast : (4 * w : ℝ) ≤ 2 ^ 53 := by exact_mod_cast hw
    linarith
  have hsmall : 0 < c * (w / 2 ^ 53) := mul_pos hpos (div_pos (by exact_mod_cast hodd.pos) (by norm_num))
  have hfour : 4 * (c * (w / 2 ^ 53)) ≤ c := by nlinarith
  have hlarge : 0 < c * (1 - w / 2 ^ 53) := by linarith
  rcases (le_quantum (c * (1 - w / 2 ^ 53))).eq_or_lt with hleast | hlarger
  · obtain ⟨n, hn⟩ := hc.onGrid.mono (le_quantum c)
    have hother : quantum (c * (w / 2 ^ 53)) = -1074 := by
      refine le_antisymm ?_ (le_quantum _)
      rw [hleast]
      refine quantum_mono hsmall.ne' ?_
      rw [abs_of_pos hsmall, abs_of_pos hlarge]
      linarith
    have hshare : c * (w / 2 ^ 53) / 2 ^ (-1074 : ℤ) = n * (w / 2 ^ 53) := by
      rw [hn]
      field_simp
    have htie : Even n ∨ |c * (w / 2 ^ 53) / 2 ^ (-1074 : ℤ) -
        roundEven (c * (w / 2 ^ 53) / 2 ^ (-1074 : ℤ))| < 1 / 2 := by
      rw [hshare]
      exact (Int.even_or_odd n).imp_right fun hodd' => abs_sub_roundEven_lt hodd' hodd
    rw [rnd_add_rnd_least (hsum.trans hn) hleast.symm hother htie, ← hn, rnd_of_representable hc]
  · have hmono : quantum (c * (1 - w / 2 ^ 53)) ≤ quantum c := by
      refine quantum_mono hlarge.ne' ?_
      rw [abs_of_pos hlarge, abs_of_pos hpos]
      linarith
    exact rnd_add_rnd hsum hsmall hfour (heven (by omega)) hlarger

/-! ### Weights -/

/-- A count of `2 ^ (-53)` up to one is a float. -/
theorem exact_fraction {n : ℕ} (hn : n ≤ 2 ^ 53) : Exact (n / 2 ^ 53) := by
  have hpower : (n / 2 ^ 53 : ℝ) = n * 2 ^ (-53 : ℤ) := by
    rw [div_eq_mul_inv, ← zpow_natCast, ← zpow_neg]
    rfl
  have hone : (n / 2 ^ 53 : ℝ) ≤ 1 := by
    rw [div_le_one (by positivity)]
    exact_mod_cast hn
  refine ⟨hpower ▸ representable_mul_zpow hn (by norm_num), ?_⟩
  rw [abs_of_nonneg (by positivity)]
  exact hone.trans_lt (one_lt_zpow₀ one_lt_two (by norm_num))

theorem denotes_fraction {n : ℕ} (hn : n ≤ 2 ^ 53) :
    Denotes (Float.ofNat n / Float.ofNat (2 ^ 53)) (n / 2 ^ 53) := by
  have hexact := exact_fraction hn
  have hdivisor : ((2 ^ 53 : ℕ) : ℝ) = 2 ^ 53 := by norm_num
  have hquotient := (denotes_natCast hn).div (denotes_natCast le_rfl) (by norm_num)
    (hdivisor.symm ▸ hexact.inRange)
  rwa [hdivisor, rnd_of_representable hexact.representable] at hquotient

/-- **A weighted average of a float and itself restores the float**, where the count of its units is
even and the one weight is an odd count of `2 ^ (-53)`, and at most a quarter. -/
theorem denotes_weighted {x k : Float} {c : ℝ} {w : ℕ} (hx : Denotes x c) (hpos : 0 < c)
    (hk : k = Float.ofNat w / Float.ofNat (2 ^ 53)) (hodd : Odd w) (hw : 4 * w ≤ 2 ^ 53)
    (heven : EvenCount c) :
    Denotes (x * k + x * (1 - k)) c := by
  have hweight : Denotes k (w / 2 ^ 53) := hk ▸ denotes_fraction (by omega)
  have hrest : (1 - w / 2 ^ 53 : ℝ) = (2 ^ 53 - w : ℕ) / 2 ^ 53 := by
    rw [Nat.cast_sub (by omega)]
    push_cast
    ring
  have hexact : Exact (1 - w / 2 ^ 53 : ℝ) := hrest ▸ exact_fraction (Nat.sub_le _ _)
  have hother := denotes_one.sub hweight hexact.inRange
  rw [rnd_of_representable hexact.representable] at hother
  have hpart {p : ℝ} (hp : 0 ≤ p) (hone : p ≤ 1) : InRange (c * p) := by
    refine hx.inRange.of_abs_le ?_
    rw [abs_mul, abs_of_nonneg hp]
    exact mul_le_of_le_one_right (abs_nonneg c) hone
  have hshare : (w / 2 ^ 53 : ℝ) ≤ 1 := by
    rw [div_le_one (by positivity)]
    exact_mod_cast (show w ≤ 2 ^ 53 by omega)
  have hshare' : (0 : ℝ) ≤ w / 2 ^ 53 := by positivity
  have hsmall := hx.mul hweight (hpart hshare' hshare)
  have hlarge := hx.mul hother (hpart (by linarith) (by linarith))
  have hrestored := rnd_shares hodd hw hx.representable hpos heven
  rw [add_comm] at hrestored
  have hsum := hsmall.add hlarge ⟨by rw [hrestored]; exact hx.abs_lt⟩
  rwa [hrestored] at hsum

end MarketSignals.Binary64
