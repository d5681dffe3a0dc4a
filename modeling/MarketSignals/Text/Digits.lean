/-!
# Decimal digits

Whole numbers in decimal text: writing, writing to a least width, and reading a count whose
size is bounded.

## Main results

* `value_digits` — a number's digits read back as the number.
* `value_padded` — leading zeros change nothing.
* `count?_eq_some_iff` — a count is an optional plus sign and at least one digit whose value
  stays below the limit.
-/

namespace MarketSignals.Text

/-- The decimal digits of a number, the most significant first. -/
def digits (n : Nat) : List Char :=
  Nat.toDigits 10 n

/-- The number that decimal digits denote. -/
def value (text : List Char) : Nat :=
  Nat.ofDigitChars 10 text 0

/-- The digits of a number behind as many zeros as fill the width. -/
def padded (width n : Nat) : List Char :=
  List.replicate (width - (digits n).length) '0' ++ digits n

/-- The digits of an integer behind a minus sign where it is negative. -/
def signed (i : Int) : List Char :=
  if i < 0 then '-' :: digits i.natAbs else digits i.natAbs

/-- The text without one plus sign in front. -/
def dropPlus : List Char → List Char
  | '+' :: rest => rest
  | text => text

/-- The count below `limit` that a text denotes: an optional plus sign, then digits only. -/
def count? (limit : Nat) (text : List Char) : Option Nat :=
  let body := dropPlus text
  if !body.isEmpty && body.all Char.isDigit && value body < limit then some (value body) else none

/-- A number's digits read back as the number. -/
@[simp] theorem value_digits (n : Nat) : value (digits n) = n :=
  Nat.ofDigitChars_toDigits (by decide) (by decide)

/-- A number has at least one digit. -/
theorem digits_ne_nil (n : Nat) : digits n ≠ [] :=
  Nat.toDigits_ne_nil

/-- A number is written with ASCII digits only. -/
theorem isDigit_of_mem_digits {n : Nat} {c : Char} (h : c ∈ digits n) : c.isDigit = true :=
  Nat.isDigit_of_mem_toDigits (by decide) (by decide) h

/-- Leading zeros do not change what digits denote. -/
@[simp] theorem value_padded (width n : Nat) : value (padded width n) = n := by
  unfold value padded digits
  rw [Nat.ofDigitChars_append, Nat.ofDigitChars_replicate_zero]
  exact value_digits n

/-- Padding reaches the width. -/
theorem length_padded (width n : Nat) : (padded width n).length = max width (digits n).length := by
  simp [padded]
  omega

/-- A padded number is written with ASCII digits only. -/
theorem isDigit_of_mem_padded {width n : Nat} {c : Char} (h : c ∈ padded width n) :
    c.isDigit = true := by
  simp only [padded, List.mem_append, List.mem_replicate] at h
  rcases h with ⟨_, rfl⟩ | h
  · decide
  · exact isDigit_of_mem_digits h

/-- A text is a count exactly when, behind an optional plus sign, it has at least one digit and
nothing else, and the value stays below the limit. -/
theorem count?_eq_some_iff {limit n : Nat} {text : List Char} :
    count? limit text = some n ↔
      dropPlus text ≠ [] ∧ (∀ c ∈ dropPlus text, c.isDigit = true) ∧
        value (dropPlus text) = n ∧ n < limit := by
  simp only [count?, Bool.and_eq_true, decide_eq_true_eq, List.all_eq_true]
  constructor
  · intro h
    split at h
    · rename_i hc
      obtain ⟨⟨h1, h2⟩, h3⟩ := hc
      have hn : value (dropPlus text) = n := Option.some.inj h
      exact ⟨by simpa using h1, h2, hn, hn ▸ h3⟩
    · simp at h
  · rintro ⟨h1, h2, h3, h4⟩
    rw [if_pos ⟨⟨by simpa using h1, h2⟩, h3 ▸ h4⟩, h3]

/-- Writing a count and reading it back, within the limit. -/
theorem count?_digits {limit n : Nat} (h : n < limit) : count? limit (digits n) = some n := by
  have keep : dropPlus (digits n) = digits n := by
    unfold dropPlus
    split
    · rename_i rest heq
      have := isDigit_of_mem_digits (n := n) (c := '+') (by simp [heq])
      exact absurd this (by decide)
    · rfl
  rw [count?_eq_some_iff, keep]
  exact ⟨digits_ne_nil n, fun c hc => isDigit_of_mem_digits hc, value_digits n, h⟩

end MarketSignals.Text
