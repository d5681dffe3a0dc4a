/-!
# Blank characters

The Unicode property White_Space as a table of ranges, and the two ways of dropping blanks
from a text. Blanks decide where a symbol counts as empty, where a setting's value starts and
ends, and what may stand between the parts of a written time.

## Main results

* `isBlank_of_isWhitespace` — the table extends the ASCII class of the core library.
* `trimStart_eq_nil_iff`, `trim_eq_nil_iff` — nothing is left exactly of a text of blanks.
-/

namespace MarketSignals.Text

/-- The ranges of code points with the property White_Space, ascending and apart. -/
def blankRanges : List (Nat × Nat) :=
  [(0x09, 0x0D), (0x20, 0x20), (0x85, 0x85), (0xA0, 0xA0), (0x1680, 0x1680),
    (0x2000, 0x200A), (0x2028, 0x2029), (0x202F, 0x202F), (0x205F, 0x205F), (0x3000, 0x3000)]

/-- Whether a character has the property White_Space. -/
def isBlank (c : Char) : Bool :=
  blankRanges.any fun range => range.1 ≤ c.toNat && c.toNat ≤ range.2

/-- The text without the blanks in front. -/
def trimStart (text : List Char) : List Char :=
  text.dropWhile isBlank

/-- The text without the blanks at either end. -/
def trim (text : List Char) : List Char :=
  (trimStart (trimStart text).reverse).reverse

/-- The text in ASCII upper case; other characters stay. -/
def upperCase (text : List Char) : List Char :=
  text.map Char.toUpper

/-- The text in ASCII lower case; other characters stay. -/
def lowerCase (text : List Char) : List Char :=
  text.map Char.toLower

/-- Every character the core library calls white space is blank. -/
theorem isBlank_of_isWhitespace {c : Char} (h : c.isWhitespace = true) : isBlank c = true := by
  simp [Char.isWhitespace] at h
  rcases h with ((h | h) | h) | h <;> subst h <;> decide

/-- Nothing is left of a text exactly when it holds blanks only. -/
theorem trimStart_eq_nil_iff {text : List Char} :
    trimStart text = [] ↔ ∀ c ∈ text, isBlank c = true := by
  induction text with
  | nil => simp [trimStart]
  | cons c rest ih =>
    rw [trimStart, List.dropWhile_cons, List.forall_mem_cons]
    by_cases h : isBlank c = true
    · rw [if_pos h, and_iff_right h]
      exact ih
    · rw [if_neg h]
      exact ⟨fun nil => absurd nil (List.cons_ne_nil c rest), fun all => absurd all.1 h⟩

/-- What is left does not start with a blank. -/
theorem head?_trimStart_not_blank {text : List Char} {c : Char}
    (h : (trimStart text).head? = some c) : isBlank c = false := by
  induction text with
  | nil => simp [trimStart] at h
  | cons d rest ih =>
    by_cases hd : isBlank d = true
    · exact ih (by simpa [trimStart, List.dropWhile_cons, hd] using h)
    · have : d = c := by simpa [trimStart, List.dropWhile_cons, hd] using h
      simpa [← this] using hd

/-- Trimming leaves nothing exactly of a text of blanks. -/
theorem trim_eq_nil_iff {text : List Char} :
    trim text = [] ↔ ∀ c ∈ text, isBlank c = true := by
  constructor
  · intro h
    have blank : ∀ c ∈ trimStart text, isBlank c = true := by
      have := trimStart_eq_nil_iff.mp (List.reverse_eq_nil_iff.mp h)
      simpa using this
    cases hs : trimStart text with
    | nil => exact trimStart_eq_nil_iff.mp hs
    | cons c rest =>
      have head : (trimStart text).head? = some c := by simp [hs]
      have front := head?_trimStart_not_blank head
      have := blank c (by simp [hs])
      simp [front] at this
  · intro h
    have nothing : trimStart text = [] := trimStart_eq_nil_iff.mpr h
    rw [trim, nothing]
    rfl

end MarketSignals.Text
