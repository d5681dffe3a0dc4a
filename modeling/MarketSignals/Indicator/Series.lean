import MarketSignals.Price

/-!
# Statistics of a series

Averages, spreads and extremes of a series of numbers ordered oldest first. A statistic over a
period looks at the end of the series and is missing where the series is too short. Sums are taken
from the left and start at negative zero, so that a sum of negative zeros keeps its sign.

## Main results

* `trailing_append` — what lies before the end of a series does not reach its trailing part.
* `length_emaSeries` — an exponential average has one entry for each number.
-/

namespace MarketSignals.Series

variable {α : Type}

/-- The last entries of a list, as many as asked for where there are as many. -/
def trailing (period : Nat) (list : List α) : List α :=
  list.drop (list.length - period)

/-- A sum from the left. -/
def sum (values : List Float) : Float :=
  values.foldl (· + ·) (-0.0)

/-- The arithmetic mean; zero for no numbers. -/
def mean (values : List Float) : Float :=
  if values.isEmpty then 0 else sum values / Float.ofNat values.length

/-- Whether a period selects a full part of a series. -/
def covers (period : Nat) (values : List α) : Bool :=
  period ≠ 0 && period ≤ values.length

/-- The mean of the last `period` numbers. -/
def sma? (values : List Float) (period : Nat) : Option Float :=
  if covers period values then some (mean (trailing period values)) else none

/-- The weight an exponential average gives to a new number. -/
def emaWeight (period : Nat) : Float :=
  2 / (Float.ofNat period + 1)

/-- One step of an exponential average. -/
def emaStep (period : Nat) (value previous : Float) : Float :=
  value * emaWeight period + previous * (1 - emaWeight period)

/-- The exponential averages that follow a former one. -/
def emaFrom (period : Nat) (previous : Float) : List Float → List Float
  | [] => []
  | value :: rest =>
    let next := emaStep period value previous
    next :: emaFrom period next rest

/-- The exponential averages of a series, which start at its first number. -/
def emaSeries (values : List Float) (period : Nat) : List Float :=
  match values with
  | [] => []
  | first :: rest => first :: emaFrom period first rest

/-- The last exponential average. -/
def ema? (values : List Float) (period : Nat) : Option Float :=
  if covers period values then (emaSeries values period).getLast? else none

/-- The mean square distance of the last `period` numbers from their mean. -/
def variance? (values : List Float) (period : Nat) : Option Float :=
  if covers period values then
    let window := trailing period values
    let centre := mean window
    some (sum (window.map fun v => (v - centre) * (v - centre)) / Float.ofNat period)
  else none

/-- The square root of the variance. -/
def deviation? (values : List Float) (period : Nat) : Option Float :=
  (variance? values period).map Float.sqrt

/-- The larger of two numbers; what is no number gives way, and of equal ones, such as zeros of
either sign, the second is taken. -/
def larger (x y : Float) : Float :=
  if y.isNaN then x else if y < x then x else y

/-- The smaller of two numbers; what is no number gives way, and of equal ones, such as zeros of
either sign, the second is taken. -/
def smaller (x y : Float) : Float :=
  if y.isNaN then x else if x < y then x else y

/-- The largest number. -/
def max? : List Float → Option Float
  | [] => none
  | first :: rest => some (rest.foldl larger first)

/-- The smallest number. -/
def min? : List Float → Option Float
  | [] => none
  | first :: rest => some (rest.foldl smaller first)

/-- The range a bar covers, the former close included. -/
def trueRange (high low formerClose : Float) : Float :=
  larger (larger (high - low) (high - formerClose).abs) (low - formerClose).abs

/-- The nearest number between two bounds; what is no number stays. -/
def clamp (x low high : Float) : Float :=
  if x < low then low else if high < x then high else x

/-- The nearest number between zero and one; zero for what is no number. -/
def clampUnit (x : Float) : Float :=
  if x.isNaN then 0 else clamp x 0 1

/-! ### Lemmas -/

@[simp] theorem length_trailing (period : Nat) (list : List α) :
    (trailing period list).length = min period list.length := by
  simp [trailing]
  omega

theorem length_trailing_le (period : Nat) (list : List α) :
    (trailing period list).length ≤ period := by
  rw [length_trailing]
  exact Nat.min_le_left _ _

/-- What lies before the end of a series does not reach its trailing part. -/
theorem trailing_append {period : Nat} {front back : List α} (h : period ≤ back.length) :
    trailing period (front ++ back) = trailing period back := by
  simp only [trailing, List.length_append]
  rw [Nat.add_sub_assoc h, ← List.drop_drop, List.drop_left]

@[simp] theorem trailing_nil (period : Nat) : trailing period ([] : List α) = [] :=
  List.drop_nil

/-- A list that is short enough is its own end. -/
theorem trailing_of_length_le {period : Nat} {list : List α} (h : list.length ≤ period) :
    trailing period list = list := by
  rw [trailing, Nat.sub_eq_zero_of_le h, List.drop_zero]

/-- An end that reaches beyond the back of a list. -/
theorem trailing_append_of_length_le {period : Nat} {front back : List α}
    (h : back.length ≤ period) :
    trailing period (front ++ back) = trailing (period - back.length) front ++ back := by
  have hdrop : (front ++ back).length - period = front.length - (period - back.length) := by
    rw [List.length_append]
    omega
  rw [trailing, hdrop, List.drop_append_of_le_length (Nat.sub_le _ _), trailing]

/-- The first entries of a list that is read backwards are its end. -/
theorem reverse_take_reverse (period : Nat) (list : List α) :
    (list.reverse.take period).reverse = trailing period list := by
  rw [List.reverse_take, List.reverse_reverse, List.length_reverse, trailing]

/-- The last entry of a list, found in its last part. -/
theorem getLast?_trailing_one (list : List α) : (trailing 1 list).getLast? = list.getLast? := by
  cases list with
  | nil => rfl
  | cons a rest => rw [trailing, List.getLast?_drop, if_neg (by simp)]

theorem length_emaFrom (period : Nat) (previous : Float) (values : List Float) :
    (emaFrom period previous values).length = values.length := by
  induction values generalizing previous with
  | nil => rfl
  | cons value rest ih => simp [emaFrom, ih]

/-- An exponential average has one entry for each number. -/
@[simp] theorem length_emaSeries (values : List Float) (period : Nat) :
    (emaSeries values period).length = values.length := by
  cases values with
  | nil => rfl
  | cons first rest => simp [emaSeries, length_emaFrom]

end MarketSignals.Series
