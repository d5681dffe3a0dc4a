import Mathlib.Data.List.Forall2
import MarketSignals.Proofs.Text.Digits

/-!
# The order of texts

Numbers as texts are in the order of the first characters that differ, so that `10` comes before
`9`. Where numbers are filled up to a fixed width their texts are in the order of the numbers, and a
text of several such numbers is in the order of the first numbers that differ. Between texts in
ASCII the order of the bytes is that of the characters.

## Main results

* `Text.padded_append_lt_iff`: numbers of one width, whatever comes behind them.
* `Text.fields_lt_fields_iff`: texts of several numbers of fixed widths.
* `Text.bytes_lt_bytes_iff`: the order of the bytes of texts in ASCII.
-/

namespace MarketSignals.Text

/-! ### Numbers -/

theorem char_lt_iff {c d : Char} : c < d ↔ c.toNat < d.toNat :=
  UInt32.lt_iff_toNat_lt

/-- Of two runs of as many digits, each behind a number and before a text: the order of the numbers
that come out is that of the runs. The numbers in front change with each digit that is read. -/
theorem ofDigitChars_lt_or_iff {ds es : List Char} (hds : ∀ c ∈ ds, c.isDigit = true)
    (hes : ∀ c ∈ es, c.isDigit = true) (hlength : ds.length = es.length) (rest rest' : List Char)
    (n m : ℕ) :
    (Nat.ofDigitChars 10 ds n < Nat.ofDigitChars 10 es m ∨
        Nat.ofDigitChars 10 ds n = Nat.ofDigitChars 10 es m ∧ rest < rest') ↔
      n < m ∨ n = m ∧ ds ++ rest < es ++ rest' := by
  induction ds generalizing es n m with
  | nil =>
      obtain rfl := List.eq_nil_of_length_eq_zero hlength.symm
      rfl
  | cons c ds ih =>
      obtain ⟨d, es, rfl⟩ := List.exists_cons_of_length_eq_add_one hlength.symm
      obtain ⟨hc, hds⟩ := List.forall_mem_cons.mp hds
      obtain ⟨hd, hes⟩ := List.forall_mem_cons.mp hes
      have hcbounds := toNat_bounds_of_isDigit hc
      have hdbounds := toNat_bounds_of_isDigit hd
      have hzero : '0'.toNat = 48 := rfl
      have hequal : c = d ↔ c.toNat = d.toNat := Char.toNat_inj.symm
      rw [Nat.ofDigitChars_cons, Nat.ofDigitChars_cons, ih hds hes (Nat.succ_inj.mp hlength),
        List.cons_append, List.cons_append, List.cons_lt_cons_iff, hequal, char_lt_iff, hzero]
      by_cases hbehind : ds ++ rest < es ++ rest'
      · simp only [hbehind, and_true]
        omega
      · simp only [hbehind, and_false, or_false]
        omega

/-- **Numbers of one width are in the order of the numbers**, and what comes behind them counts only
where they are equal. -/
theorem padded_append_lt_iff {width n m : ℕ} (hwidth : 0 < width) (hn : n < 10 ^ width)
    (hm : m < 10 ^ width) (rest rest' : List Char) :
    padded width n ++ rest < padded width m ++ rest' ↔ n < m ∨ n = m ∧ rest < rest' := by
  have hlength : (padded width n).length = (padded width m).length := by
    rw [length_padded_of_lt hwidth hn, length_padded_of_lt hwidth hm]
  have hvalues := ofDigitChars_lt_or_iff (areDigits_padded width n).2 (areDigits_padded width m).2
    hlength rest rest' 0 0
  rw [← value, ← value, value_padded, value_padded] at hvalues
  simpa using hvalues.symm

/-! ### Several numbers -/

/-- Numbers of given widths, each with a mark behind it. -/
def fields : List (ℕ × Char) → List ℕ → List Char
  | (width, mark) :: layout, n :: numbers => padded width n ++ mark :: fields layout numbers
  | _, _ => []

/-- Between marks in ASCII the numbers are a text in ASCII. -/
theorem fields_ascii {layout : List (ℕ × Char)} (hmarks : ∀ field ∈ layout, field.2.toNat < 128)
    (numbers : List ℕ) : ∀ c ∈ fields layout numbers, c.toNat < 128 := by
  induction layout generalizing numbers with
  | nil => exact fun c hc => absurd hc List.not_mem_nil
  | cons field layout ih =>
      obtain ⟨hmark, hrest⟩ := List.forall_mem_cons.mp hmarks
      cases numbers with
      | nil => exact fun c hc => absurd hc List.not_mem_nil
      | cons n numbers =>
          refine List.forall_mem_append.mpr ⟨fun c hc => ?_,
            List.forall_mem_cons.mpr ⟨hmark, ih hrest numbers⟩⟩
          have hbounds := toNat_bounds_of_isDigit (isDigit_of_mem_padded hc)
          omega

/-- Whether there is a number for each width, and none is too long. -/
def Fits (layout : List (ℕ × Char)) (numbers : List ℕ) : Prop :=
  List.Forall₂ (fun field n => 0 < field.1 ∧ n < 10 ^ field.1) layout numbers

/-- **Texts of numbers that fit are in the order of the numbers**, the first ones first. -/
theorem fields_lt_fields_iff {layout : List (ℕ × Char)} {ns ms : List ℕ} (hns : Fits layout ns)
    (hms : Fits layout ms) : fields layout ns < fields layout ms ↔ ns < ms := by
  induction hns generalizing ms with
  | nil =>
      cases hms
      exact iff_of_false (List.not_lt_nil _) (List.not_lt_nil _)
  | @cons field n layout ns hn _ ih =>
      obtain ⟨m, ms, hm, hrest, rfl⟩ := List.forall₂_cons_left_iff.mp hms
      have hmark : ∀ {text text' : List Char}, field.2 :: text < field.2 :: text' ↔ text < text' :=
        by simp
      rw [fields, fields, padded_append_lt_iff hn.1 hn.2 hm.2, hmark, ih hrest,
        List.cons_lt_cons_iff]

/-! ### Bytes -/

/-- The bytes of a text in UTF-8. -/
def bytes (text : List Char) : List UInt8 :=
  (String.ofList text).toUTF8.data.toList

theorem bytes_cons {c : Char} (hc : c.toNat < 128) (text : List Char) :
    bytes (c :: text) = c.toUInt8 :: bytes text := by
  have hone : c.utf8Size = 1 := Char.utf8Size_eq_one_iff.mpr (UInt32.le_iff_toNat_le.mpr (by
    change c.toNat ≤ 127
    omega))
  simp [bytes, String.toUTF8_eq_toByteArray, List.utf8Encode,
    String.utf8EncodeChar_eq_singleton hone]

/-- **The bytes of texts in ASCII are in the order of the characters.** -/
theorem bytes_lt_bytes_iff {a b : List Char} (ha : ∀ c ∈ a, c.toNat < 128)
    (hb : ∀ c ∈ b, c.toNat < 128) : bytes a < bytes b ↔ a < b := by
  induction a generalizing b with
  | nil =>
      cases b with
      | nil => exact iff_of_false (List.not_lt_nil _) (List.not_lt_nil _)
      | cons d b =>
          rw [bytes_cons (hb d List.mem_cons_self)]
          exact iff_of_true (List.nil_lt_cons _ _) (List.nil_lt_cons _ _)
  | cons c a ih =>
      obtain ⟨hc, ha⟩ := List.forall_mem_cons.mp ha
      cases b with
      | nil => exact iff_of_false (List.not_lt_nil _) (List.not_lt_nil _)
      | cons d b =>
          obtain ⟨hd, hb⟩ := List.forall_mem_cons.mp hb
          have hcode : ∀ {e : Char}, e.toNat < 128 → e.toUInt8.toNat = e.toNat := by
            intro e he
            show e.toNat % 256 = e.toNat
            omega
          have hless : c.toUInt8 < d.toUInt8 ↔ c < d := by
            rw [UInt8.lt_iff_toNat_lt, hcode hc, hcode hd, char_lt_iff]
          have hequal : c.toUInt8 = d.toUInt8 ↔ c = d := by
            rw [← UInt8.toNat_inj, hcode hc, hcode hd, Char.toNat_inj]
          rw [bytes_cons hc, bytes_cons hd, List.cons_lt_cons_iff, List.cons_lt_cons_iff, hless,
            hequal, ih ha hb]

end MarketSignals.Text
