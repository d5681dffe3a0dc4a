import MarketSignals.Indicator.Series

/-!
# Numbers between zero and one

What is brought between zero and one is a number there, whatever it was before, and a number that
was there already stays as it is. Floats are not in a linear order, as what is no number compares
with nothing; that is the only exception, and clamping looks for it first.

## Main results

* `le_iff_not_lt`: of two floats that are numbers, one is below the other or not above it.
* `clamp_between`, `inUnit_clampUnit`: clamping gives a number between the bounds.
* `clampUnit_eq_self`: clamping leaves such a number alone.
-/

namespace MarketSignals.Series

open Float.Model

/-! ### The order of floats -/

/-- Two floats compare one way round as the other. -/
theorem compare_swap (a b : UnpackedFloat) : b.compare a = (a.compare b).map Ordering.swap := by
  cases a with
  | notANumber => cases b <;> rfl
  | zero s =>
      cases b with
      | finite s' => cases s' <;> rfl
      | infinity s' => cases s' <;> rfl
      | zero | notANumber => rfl
  | infinity s =>
      cases b with
      | infinity s' => cases s <;> cases s' <;> rfl
      | finite s' => cases s <;> cases s' <;> rfl
      | zero | notANumber => cases s <;> rfl
  | finite s m e hm =>
      cases b with
      | infinity s' => cases s <;> cases s' <;> rfl
      | zero | notANumber => cases s <;> rfl
      | finite s' m' e' hm' =>
          have hexponent : compare e' e = (compare e e').swap := Std.OrientedOrd.eq_swap
          have hmantissa : compare m' m = (compare m m').swap := Std.OrientedOrd.eq_swap
          have hboth : (compare e' e).then (compare m' m) =
              ((compare e e').then (compare m m')).swap := by
            rw [hexponent, hmantissa, Ordering.swap_then]
          cases s with
          | positive =>
              cases s' with
              | positive => exact congrArg some hboth
              | negative => rfl
          | negative =>
              cases s' with
              | positive => rfl
              | negative => exact congrArg (fun o => some o.swap) hboth

/-- Two floats that are numbers compare. -/
theorem exists_compare {a b : UnpackedFloat} (ha : a.isNaN = false) (hb : b.isNaN = false) :
    ∃ o, a.compare b = some o := by
  cases a with
  | notANumber => cases ha
  | zero s =>
      cases b with
      | notANumber => cases hb
      | zero s' => exact ⟨_, rfl⟩
      | infinity s' | finite s' => cases s' <;> exact ⟨_, rfl⟩
  | infinity s | finite s =>
      cases b with
      | notANumber => cases hb
      | zero s' => cases s <;> exact ⟨_, rfl⟩
      | infinity s' | finite s' => cases s <;> cases s' <;> exact ⟨_, rfl⟩

/-- Two floats compare unless one of them is no number. -/
theorem compare_eq_none_iff {a b : UnpackedFloat} :
    a.compare b = none ↔ a.isNaN = true ∨ b.isNaN = true := by
  constructor
  · intro hnone
    cases ha : a.isNaN with
    | true => exact .inl rfl
    | false =>
        cases hb : b.isNaN with
        | true => exact .inr rfl
        | false =>
            obtain ⟨o, ho⟩ := exists_compare ha hb
            rw [hnone] at ho
            cases ho
  · rintro (ha | hb)
    · cases a with
      | notANumber => rfl
      | zero | infinity | finite => cases ha
    · cases b with
      | notANumber => cases a <;> rfl
      | zero | infinity | finite => cases hb

theorem lt_iff_compare {x y : Float} :
    x < y ↔ x.toModel.unpack.compare y.toModel.unpack = some .lt := by
  show Float.lt x y = true ↔ _
  rw [Float.lt, decide_eq_true_eq]
  show x.toModel.lt y.toModel = true ↔ _
  rw [Float.Model.lt, UnpackedFloat.lt, beq_iff_eq]

theorem le_iff_compare {x y : Float} :
    x ≤ y ↔ ∃ o, x.toModel.unpack.compare y.toModel.unpack = some o ∧ o.isLE := by
  show Float.le x y = true ↔ _
  rw [Float.le, decide_eq_true_eq]
  show x.toModel.le y.toModel = true ↔ _
  rw [Float.Model.le, UnpackedFloat.le, Option.any_eq_true]

/-- A float is at most another where both are numbers and the other is not below it. -/
theorem le_iff_not_lt {x y : Float} :
    x ≤ y ↔ x.isNaN = false ∧ y.isNaN = false ∧ ¬ y < x := by
  rw [le_iff_compare, lt_iff_compare, compare_swap x.toModel.unpack]
  have hnone : x.toModel.unpack.compare y.toModel.unpack = none ↔
      x.isNaN = true ∨ y.isNaN = true := compare_eq_none_iff
  cases hcompare : x.toModel.unpack.compare y.toModel.unpack with
  | none =>
      constructor
      · rintro ⟨o, ho, -⟩
        cases ho
      · rintro ⟨hx, hy, -⟩
        rcases hnone.mp hcompare with hnan | hnan
        · rw [hx] at hnan
          cases hnan
        · rw [hy] at hnan
          cases hnan
  | some o =>
      obtain ⟨hx, hy⟩ := not_or.mp (mt hnone.mpr (by simp [hcompare]))
      rw [Bool.not_eq_true] at hx hy
      rw [hx, hy]
      cases o <;> simp

theorem le_refl_of_isNaN {x : Float} (hx : x.isNaN = false) : x ≤ x := by
  refine le_iff_not_lt.mpr ⟨hx, hx, fun hlt => ?_⟩
  rw [lt_iff_compare] at hlt
  have hswap := compare_swap x.toModel.unpack x.toModel.unpack
  rw [hlt] at hswap
  cases hswap

theorem le_of_lt {x y : Float} (h : x < y) : x ≤ y :=
  le_iff_compare.mpr ⟨.lt, lt_iff_compare.mp h, rfl⟩

/-- Clamping brings a number between the bounds. -/
theorem clamp_between {x low high : Float} (hx : x.isNaN = false) (h : low ≤ high) :
    low ≤ clamp x low high ∧ clamp x low high ≤ high := by
  obtain ⟨hlow, hhigh, -⟩ := le_iff_not_lt.mp h
  rw [clamp]
  by_cases hbelow : x < low
  · rw [if_pos hbelow]
    exact ⟨le_refl_of_isNaN hlow, h⟩
  rw [if_neg hbelow]
  by_cases habove : high < x
  · rw [if_pos habove]
    exact ⟨h, le_refl_of_isNaN hhigh⟩
  · rw [if_neg habove]
    exact ⟨le_iff_not_lt.mpr ⟨hlow, hx, hbelow⟩, le_iff_not_lt.mpr ⟨hx, hhigh, habove⟩⟩

/-! ### The unit interval -/

/-- A number from zero to one. -/
def InUnit (x : Float) : Prop :=
  0 ≤ x ∧ x ≤ 1

instance (x : Float) : Decidable (InUnit x) :=
  inferInstanceAs (Decidable (0 ≤ x ∧ x ≤ 1))

/-- Clamping gives a number from zero to one. -/
theorem inUnit_clampUnit (x : Float) : InUnit (clampUnit x) := by
  rw [clampUnit]
  split
  · decide
  · rename_i hnumber
    exact clamp_between (Bool.not_eq_true _ ▸ hnumber) (by decide)

/-- Clamping leaves a number from zero to one alone. -/
theorem clampUnit_eq_self {x : Float} (h : InUnit x) : clampUnit x = x := by
  obtain ⟨-, hnumber, hlow⟩ := le_iff_not_lt.mp h.1
  obtain ⟨-, -, hhigh⟩ := le_iff_not_lt.mp h.2
  rw [clampUnit, hnumber, clamp, if_neg hlow, if_neg hhigh]
  rfl

end MarketSignals.Series
