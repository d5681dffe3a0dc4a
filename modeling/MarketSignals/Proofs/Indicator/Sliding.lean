import MarketSignals.Proofs.Indicator.FullHistory

/-!
# Sliding windows

The place of the close is averaged over windows that slide back from the newest bar, a bar at a
time. A walk cuts each window by two subtractions, its age from the length of the series and its
period from what is left, and ends at the first window for which one of them fails. So it comes upon
as many full windows as it is asked for, or as there are, and never upon a part of one.

## Main results

* `Indicator.windowsFrom_eq_map`: the windows of a walk, by their ages.
* `Indicator.percentKs_eq_map_windowsFrom`: the places that are averaged are those in its windows.
* `Indicator.stochastic_slides`: the mean place is the mean of the newest places of ever shorter
  series.
-/

namespace MarketSignals

namespace Indicator

open Series

/-- The difference of two counts, if there is one. -/
def minus? (a b : Nat) : Option Nat :=
  if b ≤ a then some (a - b) else none

/-- The bars of a period that ends an age before the newest, if the series reaches back as far. -/
def window? (bars : List Bar) (period age : Nat) : Option (List Bar) := do
  let stop ← minus? bars.length age
  let start ← minus? stop period
  some ((bars.take stop).drop start)

/-- The windows that a walk back from an age comes upon: as many as asked for, or those before the
first that is missing. -/
def windowsFrom (bars : List Bar) (period age : Nat) : Nat → List (List Bar)
  | 0 => []
  | count + 1 =>
    match window? bars period age with
    | none => []
    | some window => window :: windowsFrom bars period (age + 1) count

variable {bars : List Bar} {period age k d : Nat}

/-! ### The walk -/

theorem minus?_of_le {a b : Nat} (h : b ≤ a) : minus? a b = some (a - b) :=
  if_pos h

theorem minus?_of_lt {a b : Nat} (h : a < b) : minus? a b = none :=
  if_neg (Nat.not_le.mpr h)

/-- Where the series reaches back far enough, the window is cut. -/
theorem window?_of_le (h : period + age ≤ bars.length) :
    window? bars period age = some (earlierWindow bars period age) := by
  have hlength : (bars.take (bars.length - age)).length = bars.length - age := by
    rw [List.length_take]
    omega
  have hage : minus? bars.length age = some (bars.length - age) := minus?_of_le (by omega)
  have hperiod : minus? (bars.length - age) period = some (bars.length - age - period) :=
    minus?_of_le (by omega)
  rw [window?, hage, Option.bind_eq_bind, Option.bind_some, hperiod, earlierWindow, trailing,
    hlength]
  rfl

/-- Where it does not, there is no window, whichever of the subtractions fails. -/
theorem window?_of_lt (h : bars.length < period + age) : window? bars period age = none := by
  rw [window?]
  by_cases hage : age ≤ bars.length
  · have hperiod : minus? (bars.length - age) period = none := minus?_of_lt (by omega)
    rw [minus?_of_le hage, Option.bind_eq_bind, Option.bind_some, hperiod]
    rfl
  · rw [minus?_of_lt (Nat.not_le.mp hage)]
    rfl

/-- A walk comes upon the windows of the ages from its first on, as many as it is asked for, or as
there are. -/
theorem windowsFrom_eq_map (bars : List Bar) (period age count : Nat) :
    windowsFrom bars period age count =
      (List.range (min count (bars.length + 1 - (period + age)))).map fun i =>
        earlierWindow bars period (age + i) := by
  induction count generalizing age with
  | zero => rw [windowsFrom, Nat.zero_min, List.range_zero, List.map_nil]
  | succ count ih =>
      rw [windowsFrom]
      by_cases hreach : period + age ≤ bars.length
      · have hcount : min (count + 1) (bars.length + 1 - (period + age)) =
            min count (bars.length + 1 - (period + (age + 1))) + 1 := by omega
        rw [window?_of_le hreach, hcount, List.range_succ_eq_map, List.map_cons, List.map_map, ih]
        simp only [Nat.add_zero, Function.comp_def, Nat.succ_eq_add_one, Nat.add_assoc,
          Nat.add_comm 1]
      · have hcount : min (count + 1) (bars.length + 1 - (period + age)) = 0 := by omega
        rw [window?_of_lt (Nat.not_le.mp hreach), hcount, List.range_zero, List.map_nil]

/-- A walk from the newest bar comes upon the newest windows. -/
theorem windowsFrom_zero (hlong : k ≤ bars.length) (count : Nat) :
    windowsFrom bars k 0 count =
      (List.range (min count (bars.length - k + 1))).map fun i => earlierWindow bars k i := by
  have hcount : bars.length + 1 - (k + 0) = bars.length - k + 1 := by omega
  simp only [windowsFrom_eq_map, hcount, Nat.zero_add]

/-! ### Places -/

/-- The places that are averaged are those in the windows of a walk from the newest bar. -/
theorem percentKs_eq_map_windowsFrom (hlong : k ≤ bars.length) (d : Nat) :
    percentKs bars k d = (windowsFrom bars k 0 (max d 1)).map percentK := by
  rw [percentKs, windowsFrom_zero hlong, List.map_map]
  rfl

/-- The newest place is that in the last window, however many are averaged. -/
theorem stochastic_k (hk : 1 ≤ k) (hlong : k ≤ bars.length) (d : Nat) :
    (stochastic bars k d).k = percentK (trailing k bars) := by
  have henough : ¬ (k = 0 ∨ bars.length < k) := by omega
  obtain ⟨rest, hcount⟩ : ∃ rest, min (max d 1) (bars.length - k + 1) = rest + 1 :=
    Nat.exists_eq_add_one.mpr (by omega)
  rw [stochastic, if_neg henough, percentKs, hcount, List.range_succ_eq_map, List.map_cons,
    earlierWindow_zero]
  rfl

/-- A place further back is the newest one of the series that ends there. -/
theorem percentK_earlierWindow (hk : 1 ≤ k) (hlong : k + age ≤ bars.length) :
    percentK (earlierWindow bars k age) = (stochastic (bars.take (bars.length - age)) k 1).k := by
  have hlong' : k ≤ (bars.take (bars.length - age)).length := by
    rw [List.length_take]
    omega
  rw [stochastic_k hk hlong', earlierWindow]

/-- **The mean place is the mean of the sliding places.** In a series that has a full window, the
newest place is that in the last window. The mean is taken, the newest first, over the newest places
of the series without its last bars: as many as asked for, at least one, and no more than there are
windows. They are the places in the windows that a walk with checked subtractions comes upon, each
of them full, and each a bar older than the one before. -/
theorem stochastic_slides (hk : 1 ≤ k) (hlong : k ≤ bars.length) (d : Nat) :
    let m := min (max d 1) (bars.length - k + 1)
    let places := (List.range m).map fun i => (stochastic (bars.take (bars.length - i)) k 1).k
    let windows := windowsFrom bars k 0 (max d 1)
    (stochastic bars k d).k = percentK (trailing k bars) ∧
      places.head? = some (stochastic bars k d).k ∧
      (stochastic bars k d).d = mean places ∧
      windows.map percentK = places ∧
      windows.length = m ∧ ∀ i, ∀ h : i < windows.length, IsWindow k i bars windows[i] := by
  intro m places windows
  have henough : ¬ (k = 0 ∨ bars.length < k) := by omega
  have hplaces : percentKs bars k d = places := by
    refine List.map_congr_left fun i hi => ?_
    have hi : i < m := List.mem_range.mp hi
    exact percentK_earlierWindow hk (by omega)
  have hwindows : windows = (List.range m).map fun i => earlierWindow bars k i :=
    windowsFrom_zero hlong _
  have hlength : windows.length = m := by
    rw [hwindows, List.length_map, List.length_range]
  refine ⟨stochastic_k hk hlong d, ?_, ?_, ?_, hlength, ?_⟩
  · have hsome : 0 < m := by omega
    have hnewest : places.head? = some (stochastic (bars.take (bars.length - 0)) k 1).k := by
      rw [List.head?_eq_getElem?, List.getElem?_map, List.getElem?_range hsome]
      rfl
    rw [hnewest, Nat.sub_zero, List.take_length, stochastic_k hk hlong, stochastic_k hk hlong]
  · rw [stochastic, if_neg henough, hplaces]
  · rw [← hplaces, percentKs_eq_map_windowsFrom hlong]
  · intro i hi
    have hi' : i < m := hlength ▸ hi
    simp only [hwindows, List.getElem_map, List.getElem_range]
    exact isWindow_earlierWindow (by omega)

/-- Two windows of three bars in a series of four: the largest number of places that can be asked
for is the mean of two. -/
theorem stochastic_slides_twoWindows :
    let bars := [barAt 1, barAt 2, barAt 3, barAt 4]
    (1 ≤ 3 ∧ 3 ≤ bars.length) ∧
      (stochastic bars 3 18446744073709551615).d =
        mean [(stochastic bars 3 1).k, (stochastic [barAt 1, barAt 2, barAt 3] 3 1).k] := by
  intro bars
  have hlong : 3 ≤ bars.length := by decide
  exact ⟨⟨by decide, hlong⟩, (stochastic_slides (by decide) hlong 18446744073709551615).2.2.1⟩

end Indicator

end MarketSignals
