import Mathlib.Data.List.Basic
import Mathlib.Data.List.TakeDrop
import Mathlib.Tactic.NormNum
import MarketSignals.Text.Digits

/-!
# Digits in a text

What the readers of numbers need to know about written digits: where they end, how they start, and
how many of them there are.

## Main results

* `AreDigits.takeWhile_append`, `AreDigits.dropWhile_append`: digits are told from what follows.
* `Text.exists_zeros`: digits are zeros and then the digits of the number that they denote.
* `Text.head?_digits_ne`: a positive number does not start with a zero.
* `Text.length_padded_of_lt`: a number that fits a width is written in exactly that width.
-/

namespace MarketSignals

/-- At least one digit and nothing else. -/
def AreDigits (text : List Char) : Prop :=
  text ≠ [] ∧ ∀ c ∈ text, c.isDigit = true

/-- The digits stand together in ASCII. -/
theorem toNat_bounds_of_isDigit {c : Char} (hc : c.isDigit = true) :
    48 ≤ c.toNat ∧ c.toNat ≤ 57 := by
  simpa [Char.isDigit, UInt32.le_iff_toNat_le] using hc

/-- A digit is none of the marks that stand between digits. -/
theorem ne_of_isDigit {c d : Char} (hc : c.isDigit = true) (hd : d.isDigit = false) : c ≠ d := by
  rintro rfl
  exact Bool.false_ne_true (hd.symm.trans hc)

namespace AreDigits

variable {ds rest : List Char}

theorem exists_cons (hds : AreDigits ds) : ∃ c tail, ds = c :: tail ∧ c.isDigit = true := by
  obtain ⟨c, tail, rfl⟩ := List.exists_cons_of_ne_nil hds.1
  exact ⟨c, tail, rfl, hds.2 c List.mem_cons_self⟩

theorem takeWhile_append (hds : AreDigits ds) (hrest : ∀ c ∈ rest.head?, c.isDigit = false) :
    (ds ++ rest).takeWhile Char.isDigit = ds := by
  rw [List.takeWhile_append_of_pos hds.2]
  cases rest with
  | nil => exact List.append_nil ds
  | cons c rest => simp [hrest c rfl]

theorem dropWhile_append (hds : AreDigits ds) (hrest : ∀ c ∈ rest.head?, c.isDigit = false) :
    (ds ++ rest).dropWhile Char.isDigit = rest := by
  rw [List.dropWhile_append_of_pos hds.2]
  cases rest with
  | nil => rfl
  | cons c rest => simp [hrest c rfl]

end AreDigits

namespace Text

theorem areDigits_digits (n : Nat) : AreDigits (digits n) :=
  ⟨digits_ne_nil n, fun _ hc => isDigit_of_mem_digits hc⟩

theorem areDigits_padded (width n : Nat) : AreDigits (padded width n) := by
  refine ⟨fun hnil => digits_ne_nil n (List.append_eq_nil_iff.mp hnil).2, ?_⟩
  exact fun _ hc => isDigit_of_mem_padded hc

/-- Digits of a positive number start with one that is not zero. -/
theorem head?_digits_ne {n : Nat} (hn : 0 < n) : (digits n).head? ≠ some '0' := by
  induction n using Nat.strongRecOn with
  | ind n ih =>
      rw [digits, Nat.toDigits_eq_if (by norm_num)]
      split
      next hsmall =>
        have hdigit : ∀ d : Fin 10, 0 < d.val → [Nat.digitChar d].head? ≠ some '0' := by decide
        exact hdigit ⟨n, hsmall⟩ hn
      next hlarge =>
        show (digits (n / 10) ++ [(n % 10).digitChar]).head? ≠ some '0'
        rw [List.head?_append_of_ne_nil _ (digits_ne_nil (n / 10))]
        exact ih (n / 10) (by omega) (by omega)

/-- Every digit is that of a number below ten. -/
theorem exists_digitChar {c : Char} (hc : c.isDigit = true) : ∃ d < 10, Nat.digitChar d = c := by
  have hrange := toNat_bounds_of_isDigit hc
  have hsmall : c.toNat - 48 < 10 := by omega
  refine ⟨c.toNat - 48, hsmall, Char.toNat_inj.mp ?_⟩
  rw [Nat.toNat_digitChar_of_lt_ten hsmall]
  omega

/-- Digits behind those of a positive number are the last digits of another. -/
theorem digits_append {n : Nat} {ds : List Char} (hn : 0 < n) (hds : ∀ c ∈ ds, c.isDigit = true) :
    digits n ++ ds = digits (Nat.ofDigitChars 10 ds n) := by
  induction ds generalizing n with
  | nil => rw [List.append_nil, Nat.ofDigitChars_nil]
  | cons c rest ih =>
      obtain ⟨hc, hrest⟩ := List.forall_mem_cons.mp hds
      obtain ⟨d, hd, rfl⟩ := exists_digitChar hc
      have hone : digits n ++ [Nat.digitChar d] = digits (10 * n + d) := by
        rw [← Nat.toDigits_of_lt_base hd]
        exact Nat.toDigits_append_toDigits (by norm_num) hn hd
      rw [Nat.ofDigitChars_cons_digitChar_of_lt_ten hd, ← ih (by omega) hrest, ← hone,
        List.append_assoc, List.singleton_append]

/-- Digits in front of others count for as many tens as there are of those. -/
theorem value_append (ds es : List Char) :
    value (ds ++ es) = value ds * 10 ^ es.length + value es := by
  rw [value, Nat.ofDigitChars_append, Nat.ofDigitChars_eq_ofDigitChars_zero, Nat.mul_comm]
  rfl

/-- Digits denote less than the power of ten that their number makes. -/
theorem value_lt {ds : List Char} (hds : ∀ c ∈ ds, c.isDigit = true) :
    value ds < 10 ^ ds.length := by
  induction ds with
  | nil => exact Nat.one_pos
  | cons c rest ih =>
      obtain ⟨hc, hrest⟩ := List.forall_mem_cons.mp hds
      obtain ⟨d, hd, rfl⟩ := exists_digitChar hc
      have hone : value [Nat.digitChar d] = d :=
        (congrArg value (Nat.toDigits_of_lt_base hd)).symm.trans (value_digits d)
      have hfront := value_append [Nat.digitChar d] rest
      rw [List.singleton_append, hone] at hfront
      calc value (Nat.digitChar d :: rest)
          = d * 10 ^ rest.length + value rest := hfront
        _ < d * 10 ^ rest.length + 10 ^ rest.length := Nat.add_lt_add_left (ih hrest) _
        _ = (d + 1) * 10 ^ rest.length := (Nat.succ_mul d _).symm
        _ ≤ 10 * 10 ^ rest.length := Nat.mul_le_mul_right _ hd
        _ = 10 ^ (rest.length + 1) := (pow_succ' 10 rest.length).symm

/-- The first digits denote what is left of the number without the others. -/
theorem value_take {ds : List Char} (hds : ∀ c ∈ ds, c.isDigit = true) (k : ℕ) :
    value (ds.take k) = value ds / 10 ^ (ds.length - k) := by
  have hlow : value (ds.drop k) < 10 ^ (ds.drop k).length :=
    value_lt fun c hc => hds c (List.mem_of_mem_drop hc)
  have hsplit := value_append (ds.take k) (ds.drop k)
  rw [List.take_append_drop, Nat.mul_comm] at hsplit
  rw [← List.length_drop, hsplit, Nat.mul_add_div (Nat.pow_pos (by norm_num)),
    Nat.div_eq_of_lt hlow, Nat.add_zero]

/-- Digits are zeros and then the digits of the number that they denote. -/
theorem exists_zeros {ds : List Char} (hds : AreDigits ds) :
    ∃ zeros, ds = List.replicate zeros '0' ++ digits (value ds) := by
  obtain ⟨hsome, hall⟩ := hds
  induction ds with
  | nil => exact absurd rfl hsome
  | cons c rest ih =>
      obtain ⟨hc, hrest⟩ := List.forall_mem_cons.mp hall
      obtain ⟨d, hd, rfl⟩ := exists_digitChar hc
      have hvalue : value (Nat.digitChar d :: rest) = Nat.ofDigitChars 10 rest d := by
        rw [value, Nat.ofDigitChars_cons_digitChar_of_lt_ten hd, Nat.mul_zero, Nat.zero_add]
      have hfirst : digits d = [Nat.digitChar d] := Nat.toDigits_of_lt_base hd
      rcases Nat.eq_zero_or_pos d with rfl | hpos
      · by_cases hlast : rest = []
        · subst hlast
          exact ⟨0, rfl⟩
        · obtain ⟨zeros, hzeros⟩ := ih hlast hrest
          refine ⟨zeros + 1, ?_⟩
          rw [hvalue, List.replicate_succ, List.cons_append]
          exact congrArg _ hzeros
      · refine ⟨0, ?_⟩
        rw [hvalue, ← digits_append hpos hrest, hfirst]
        rfl

/-- A number below a power of ten has no more digits than the power. -/
theorem length_digits_le {n k : Nat} (hk : 0 < k) (hn : n < 10 ^ k) : (digits n).length ≤ k := by
  induction k generalizing n with
  | zero => exact absurd hk (lt_irrefl 0)
  | succ k ih =>
      rw [digits, Nat.toDigits_eq_if (by norm_num)]
      split
      next => exact Nat.le_add_left 1 k
      next hlarge =>
        have hpos : 0 < k := by
          rcases Nat.eq_zero_or_pos k with rfl | hpos
          · exact absurd hn hlarge
          · exact hpos
        have hfront := ih hpos (n := n / 10) (Nat.div_lt_of_lt_mul (by rwa [← pow_succ']))
        rw [List.length_append, List.length_singleton]
        exact Nat.add_le_add_right hfront 1

/-- A positive number is at least the power of ten that its first digit stands for. -/
theorem ten_pow_le {n : Nat} (hn : 0 < n) : 10 ^ ((digits n).length - 1) ≤ n := by
  have hsome : 0 < (digits n).length := List.length_pos_iff.mpr (digits_ne_nil n)
  by_contra hsmall
  rcases Nat.eq_zero_or_pos ((digits n).length - 1) with hone | hmore
  · rw [hone, pow_zero] at hsmall
    exact hsmall hn
  · have hshort := length_digits_le hmore (not_le.mp hsmall)
    omega

/-- A number that fits a width is written in exactly that width. -/
theorem length_padded_of_lt {width n : Nat} (hwidth : 0 < width) (hn : n < 10 ^ width) :
    (padded width n).length = width := by
  rw [length_padded, max_eq_left (length_digits_le hwidth hn)]

end Text

end MarketSignals
