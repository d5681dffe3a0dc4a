import Mathlib
import MarketSignals.Text.Blank

/-!
# Trimmed texts

What trimming takes away and what it leaves, and how the cases of ASCII letters go together: two
texts are the same in upper case exactly where they are the same in lower case.

## Main results

* `exists_trim`: a text is blanks, what is left of it when it is trimmed, and blanks.
* `trim_eq_iff`: what is left is what has no blanks at its ends and only blanks around it.
* `trim_append`: trimming takes away the blanks around a text that has none.
* `upperCase_eq_iff`: the same in upper case is the same in lower case.
* `spells_iff`: the texts that spell a word in any case.
-/

namespace MarketSignals.Text

/-! ### Blanks -/

theorem trimStart_append {front text : List Char} (hfront : ∀ c ∈ front, isBlank c = true)
    (htext : ∀ c ∈ text.head?, isBlank c = false) : trimStart (front ++ text) = text := by
  rw [trimStart, List.dropWhile_append_of_pos hfront]
  cases text with
  | nil => rfl
  | cons c rest => simp [htext c rfl]

/-- Whether a text neither starts nor ends with a blank. -/
structure NoBlankEnds (text : List Char) : Prop where
  first : ∀ c ∈ text.head?, isBlank c = false
  last : ∀ c ∈ text.getLast?, isBlank c = false

/-- A text without blanks has none at its ends. -/
theorem noBlankEnds_of_forall {text : List Char} (h : ∀ c ∈ text, isBlank c = false) :
    NoBlankEnds text :=
  ⟨fun c hc => h c (List.mem_of_mem_head? hc), fun c hc => h c (List.mem_of_mem_getLast? hc)⟩

/-- Trimming takes away the blanks around a text that has none at its ends. -/
theorem NoBlankEnds.trim_append {front text back : List Char} (htext : NoBlankEnds text)
    (hfront : ∀ c ∈ front, isBlank c = true) (hback : ∀ c ∈ back, isBlank c = true) :
    trim (front ++ text ++ back) = text := by
  cases text with
  | nil =>
      refine trim_eq_nil_iff.mpr fun c hc => ?_
      rw [List.append_nil, List.mem_append] at hc
      exact hc.elim (hfront c) (hback c)
  | cons first rest =>
      have hfirst : ∀ c ∈ ((first :: rest) ++ back).head?, isBlank c = false := htext.first
      have hlast : ∀ c ∈ (first :: rest).reverse.head?, isBlank c = false := by
        rw [List.head?_reverse]
        exact htext.last
      have hback' : ∀ c ∈ back.reverse, isBlank c = true := fun c hc =>
        hback c (List.mem_reverse.mp hc)
      rw [trim, List.append_assoc, trimStart_append hfront hfirst, List.reverse_append,
        trimStart_append hback' hlast, List.reverse_reverse]

/-- Trimming takes away the blanks around a text that has none. -/
theorem trim_append {front text back : List Char} (hfront : ∀ c ∈ front, isBlank c = true)
    (htext : ∀ c ∈ text, isBlank c = false) (hback : ∀ c ∈ back, isBlank c = true) :
    trim (front ++ text ++ back) = text :=
  (noBlankEnds_of_forall htext).trim_append hfront hback

/-- What is in front of the rest is a text of blanks. -/
theorem exists_trimStart (text : List Char) : ∃ front, text = front ++ trimStart text ∧
    ∀ c ∈ front, isBlank c = true :=
  ⟨text.takeWhile isBlank, List.takeWhile_append_dropWhile.symm, fun _ => List.mem_takeWhile_imp⟩

/-- Trimming takes away from the end what is blank there. -/
theorem exists_trim_end (text : List Char) : ∃ back, trimStart text = trim text ++ back ∧
    ∀ c ∈ back, isBlank c = true := by
  obtain ⟨back, hback, hblank⟩ := exists_trimStart (trimStart text).reverse
  refine ⟨back.reverse, ?_, fun c hc => hblank c (List.mem_reverse.mp hc)⟩
  rw [trim, ← List.reverse_append, ← hback, List.reverse_reverse]

/-- A text is blanks, what is left of it when it is trimmed, and blanks. -/
theorem exists_trim (text : List Char) : ∃ front back, text = front ++ trim text ++ back ∧
    (∀ c ∈ front, isBlank c = true) ∧ ∀ c ∈ back, isBlank c = true := by
  obtain ⟨front, hfront, hblank⟩ := exists_trimStart text
  obtain ⟨back, hback, hblank'⟩ := exists_trim_end text
  refine ⟨front, back, ?_, hblank, hblank'⟩
  rw [List.append_assoc, ← hback, ← hfront]

/-- What is left of a text has no blanks at its ends. -/
theorem noBlankEnds_trim (text : List Char) : NoBlankEnds (trim text) where
  first c hc := by
    obtain ⟨back, hback, -⟩ := exists_trim_end text
    have hhead : (trimStart text).head? = some c := by
      rw [hback, List.head?_append, Option.mem_def.mp hc, Option.some_or]
    exact head?_trimStart_not_blank hhead
  last c hc := by
    rw [trim, List.getLast?_reverse] at hc
    exact head?_trimStart_not_blank hc

/-- What is left of a text is what has no blanks at its ends and only blanks around it. -/
theorem trim_eq_iff {text body : List Char} : trim text = body ↔ NoBlankEnds body ∧
    ∃ front back, text = front ++ body ++ back ∧ (∀ c ∈ front, isBlank c = true) ∧
      ∀ c ∈ back, isBlank c = true := by
  constructor
  · rintro rfl
    exact ⟨noBlankEnds_trim text, exists_trim text⟩
  · rintro ⟨hbody, front, back, rfl, hfront, hback⟩
    exact hbody.trim_append hfront hback

/-! ### Cases -/

/-- Two texts are the same in upper case exactly where they are the same in lower case. -/
theorem upperCase_eq_iff {a b : List Char} :
    upperCase a = upperCase b ↔ lowerCase a = lowerCase b := by
  have hlower : ∀ text, lowerCase (upperCase text) = lowerCase text := fun text => by
    simp [lowerCase, upperCase]
  have hupper : ∀ text, upperCase (lowerCase text) = upperCase text := fun text => by
    simp [lowerCase, upperCase]
  constructor
  · intro h
    rw [← hlower a, h, hlower b]
  · intro h
    rw [← hupper a, h, hupper b]

/-- A blank has no other case. -/
theorem toUpper_of_isBlank {c : Char} (h : isBlank c = true) : c.toUpper = c := by
  refine Char.toUpper_eq_of_not_isLower fun hlower => ?_
  have hrange : 97 ≤ c.toNat ∧ c.toNat ≤ 122 := by
    simpa [Char.isLower, UInt32.le_iff_toNat_le] using hlower
  simp only [isBlank, blankRanges, List.any_cons, List.any_nil, Bool.or_eq_true,
    Bool.and_eq_true, decide_eq_true_eq, Bool.false_eq_true, or_false] at h
  omega

/-- A text has no blanks if it has none in upper case. -/
theorem isBlank_eq_false_of_upperCase {text : List Char}
    (h : ∀ c ∈ upperCase text, isBlank c = false) : ∀ c ∈ text, isBlank c = false := by
  intro c hc
  cases hblank : isBlank c with
  | false => rfl
  | true =>
      have hupper := h c.toUpper (List.mem_map_of_mem hc)
      rw [toUpper_of_isBlank hblank, hblank] at hupper
      cases hupper

/-- A text spells a word that has no blanks, in any case and with blanks around it, where it is the
word in some case once it is trimmed. -/
theorem spells_iff {text word : List Char} (hword : ∀ c ∈ upperCase word, isBlank c = false) :
    (∃ front core back, text = front ++ core ++ back ∧ (∀ c ∈ front, isBlank c = true) ∧
      (∀ c ∈ back, isBlank c = true) ∧ lowerCase core = lowerCase word) ↔
      lowerCase (trim text) = lowerCase word := by
  constructor
  · rintro ⟨front, core, back, rfl, hfront, hback, hcore⟩
    have hupper : upperCase core = upperCase word := upperCase_eq_iff.mpr hcore
    have hblank : ∀ c ∈ core, isBlank c = false := isBlank_eq_false_of_upperCase (hupper ▸ hword)
    rw [trim_append hfront hblank hback, hcore]
  · intro h
    obtain ⟨front, back, htext, hfront, hback⟩ := exists_trim text
    exact ⟨front, trim text, back, htext, hfront, hback, h⟩

end MarketSignals.Text
