import Mathlib.Data.List.DropRight
import MarketSignals.Json.Printer
import MarketSignals.Json.Reader
import MarketSignals.Proofs.Json.Floats
import MarketSignals.Proofs.Text.Digits

/-!
# Reading numerals back

The grammar of numerals as a property of their parts, and the two facts around it: a numeral that
has the property is read back from its text, whatever follows that cannot belong to it; and the
numerals this library writes, for counts and for floats, have it.

For floats only the grammar is settled here. Whether the digits denote the float they were written
for is another question, which depends on the rounding of `Numeral.float?`.

## Main results

* `Numeral.readNumeral?_render`: a well-formed numeral is read back from its text.
* `Numeral.wellFormed_ofFloat?`: what is written for a float is well-formed.
* `Numeral.count?_ofNat`: a count of 64 bits is read back.
-/

namespace MarketSignals

/-! ### The grammar of numerals -/

/-- A numeral of the grammar: digits before the point without needless zeros, digits only behind the
point, and digits in an exponent. -/
structure Numeral.WellFormed (n : Numeral) : Prop where
  /-- There are digits before the point. -/
  whole : AreDigits n.whole
  /-- A zero before the point stands alone. -/
  noLeadingZero : n.whole.head? = some '0' → n.whole = ['0']
  /-- Behind the point there are digits only. -/
  fraction : ∀ c ∈ n.fraction, c.isDigit = true
  /-- An exponent has digits. -/
  exponent : ∀ e ∈ n.exponent, AreDigits e.digits

/-- What follows a numeral and cannot belong to it. -/
def EndsNumeral (rest : List Char) : Prop :=
  ∀ c ∈ rest.head?, c.isDigit = false ∧ c ≠ '.' ∧ c ≠ 'e' ∧ c ≠ 'E'

namespace Json

/-- Digits are read up to the first character that is none. -/
theorem readDigits?_append {ds rest : List Char} (hds : AreDigits ds)
    (hrest : ∀ c ∈ rest.head?, c.isDigit = false) :
    readDigits? (ds ++ rest) = some (ds, rest) := by
  have hsplit : readDigits (ds ++ rest) = (ds, rest) := by
    rw [readDigits, List.span_eq_takeWhile_dropWhile, hds.takeWhile_append hrest,
      hds.dropWhile_append hrest]
  obtain ⟨c, tail, rfl, -⟩ := hds.exists_cons
  rw [readDigits?, hsplit]

theorem readWhole?_append {whole rest : List Char} (hwhole : AreDigits whole)
    (hzero : whole.head? = some '0' → whole = ['0'])
    (hrest : ∀ c ∈ rest.head?, c.isDigit = false) :
    readWhole? (whole ++ rest) = some (whole, rest) := by
  by_cases hhead : whole.head? = some '0'
  · obtain rfl := hzero hhead
    show (if (rest.head?.map Char.isDigit) == some true then none else some (['0'], rest)) = _
    rw [if_neg]
    cases rest with
    | nil => simp
    | cons c rest => simp [hrest c rfl]
  · obtain ⟨c, tail, rfl, -⟩ := hwhole.exists_cons
    unfold readWhole?
    split
    next htext => exact absurd (congrArg some (List.cons.inj htext).1) hhead
    next => exact readDigits?_append hwhole hrest

end Json

namespace Numeral

variable {n : Numeral} {rest : List Char}

theorem readFraction?_render (hfraction : ∀ c ∈ n.fraction, c.isDigit = true)
    (hrest : ∀ c ∈ rest.head?, c.isDigit = false ∧ c ≠ '.') :
    Json.readFraction? (n.renderFraction ++ rest) = some (n.fraction, rest) := by
  unfold renderFraction
  cases hdigits : n.fraction with
  | nil =>
      show Json.readFraction? rest = some ([], rest)
      unfold Json.readFraction?
      split
      next tail => exact absurd rfl (hrest '.' rfl).2
      next => rfl
  | cons c ds =>
      show Json.readDigits? ((c :: ds) ++ rest) = some (c :: ds, rest)
      exact Json.readDigits?_append ⟨List.cons_ne_nil c ds, hdigits ▸ hfraction⟩
        fun c hc => (hrest c hc).1

/-- An exponent without a minus sign starts with a digit. -/
theorem readExponentSign_append {ds : List Char} (hds : AreDigits ds) :
    Json.readExponentSign (ds ++ rest) = (false, ds ++ rest) := by
  obtain ⟨c, tail, rfl, hdigit⟩ := hds.exists_cons
  rw [List.cons_append]
  unfold Json.readExponentSign
  split
  next htext => exact absurd (List.cons.inj htext).1 (ne_of_isDigit hdigit rfl)
  next htext => exact absurd (List.cons.inj htext).1 (ne_of_isDigit hdigit rfl)
  next => rfl

theorem readExponent?_render {exponent : Option Exponent}
    (hexponent : ∀ e ∈ exponent, AreDigits e.digits) (hrest : EndsNumeral rest) :
    Json.readExponent? ((exponent.map Exponent.render).getD [] ++ rest) =
      some (exponent, rest) := by
  have hdigit : ∀ c ∈ rest.head?, c.isDigit = false := fun c hc => (hrest c hc).1
  cases exponent with
  | none =>
      cases rest with
      | nil => rfl
      | cons c rest =>
          obtain ⟨-, -, hlower, hupper⟩ := hrest c rfl
          simp [Json.readExponent?, hlower, hupper]
  | some e =>
      obtain ⟨negative, digits⟩ := e
      have hdigits : AreDigits digits := hexponent _ rfl
      cases negative with
      | true => simp [Exponent.render, Json.readExponent?, Json.readExponentSign,
          Json.readDigits?_append hdigits hdigit]
      | false => simp [Exponent.render, Json.readExponent?, readExponentSign_append hdigits,
          Json.readDigits?_append hdigits hdigit]

/-- Behind the digits of a fraction no further digit or point follows. -/
theorem head?_exponent (exponent : Option Exponent) (hrest : EndsNumeral rest) :
    ∀ c ∈ ((exponent.map Exponent.render).getD [] ++ rest).head?, c.isDigit = false ∧ c ≠ '.' := by
  cases exponent with
  | none => exact fun c hc => ⟨(hrest c hc).1, (hrest c hc).2.1⟩
  | some e =>
      rintro c ⟨⟩
      decide

/-- Behind the digits before the point no further digit follows. -/
theorem head?_renderFraction (n : Numeral) (hrest : ∀ c ∈ rest.head?, c.isDigit = false) :
    ∀ c ∈ (n.renderFraction ++ rest).head?, c.isDigit = false := by
  unfold renderFraction
  cases n.fraction with
  | nil => exact hrest
  | cons d ds =>
      rintro c ⟨⟩
      rfl

theorem readMagnitude?_render (hn : n.WellFormed) (hrest : EndsNumeral rest) (negative : Bool) :
    Json.readMagnitude? negative (n.whole ++ (n.renderFraction ++
      ((n.exponent.map Exponent.render).getD [] ++ rest))) =
        some (⟨negative, n.whole, n.fraction, n.exponent⟩, rest) := by
  have hfraction := head?_exponent n.exponent hrest
  have hwhole := head?_renderFraction n fun c hc => (hfraction c hc).1
  simp [Json.readMagnitude?, Json.readWhole?_append hn.whole hn.noLeadingZero hwhole,
    readFraction?_render hn.fraction hfraction, readExponent?_render hn.exponent hrest]

/-- **A numeral is read back from its text, and what follows is left.** -/
theorem readNumeral?_render (hn : n.WellFormed) (hrest : EndsNumeral rest) :
    Json.readNumeral? (n.render ++ rest) = some (n, rest) := by
  have hmagnitude := readMagnitude?_render hn hrest
  obtain ⟨negative, whole, fraction, exponent⟩ := n
  cases negative with
  | true =>
      rw [render, if_pos rfl, List.append_assoc, List.append_assoc, List.append_assoc]
      exact hmagnitude true
  | false =>
      rw [render, if_neg Bool.false_ne_true, List.nil_append, List.append_assoc, List.append_assoc]
      obtain ⟨c, tail, rfl, hdigit⟩ := hn.whole.exists_cons
      unfold Json.readNumeral?
      split
      next htext => exact absurd (List.cons.inj htext).1 (ne_of_isDigit hdigit rfl)
      next => exact hmagnitude false

/-- A numeral starts with a minus sign or a digit. -/
theorem exists_cons_render (hn : n.WellFormed) :
    ∃ c text, n.render = c :: text ∧ (c = '-' ∨ c.isDigit = true) := by
  obtain ⟨c, tail, hwhole, hdigit⟩ := hn.whole.exists_cons
  unfold render
  cases n.negative with
  | true => exact ⟨'-', _, rfl, .inl rfl⟩
  | false =>
      rw [hwhole]
      exact ⟨c, _, rfl, .inr hdigit⟩

/-- The first character of a numeral is none of the marks of a document. -/
theorem ne_of_first {c d : Char} (hfirst : c = '-' ∨ c.isDigit = true) (hd : d.isDigit = false)
    (hminus : d ≠ '-') : c ≠ d := by
  rcases hfirst with rfl | hdigit
  · exact hminus.symm
  · exact ne_of_isDigit hdigit hd

/-! ### Counts -/

theorem wellFormed_ofNat (count : Nat) : (ofNat count).WellFormed where
  whole := Text.areDigits_digits count
  noLeadingZero := fun hhead => by
    cases count with
    | zero => rfl
    | succ k => exact absurd hhead (Text.head?_digits_ne k.succ_pos)
  fraction := fun _ hc => nomatch hc
  exponent := fun _ he => nomatch he

/-- **A count of 64 bits is read back.** -/
theorem count?_ofNat {count : Nat} (hcount : count < 2 ^ 64) :
    (ofNat count).count? = some count := by
  have hvalue : (ofNat count).integer? = some (count : Int) := by
    show (if !true then none else if false = true then _ else
      if Text.value (Text.digits count) < Nat.pow 2 64 then
        some (Text.value (Text.digits count) : Int) else none) = _
    rw [Text.value_digits]
    exact if_pos hcount
  rw [count?, hvalue]

end Numeral

/-! ### Digits of floats -/

namespace Decimal

/-- Digits that start with one that is not zero. -/
structure Digits.Leading (d : Digits) : Prop where
  /-- There are digits, and nothing else. -/
  digits : AreDigits d.digits
  /-- The first one is not zero. -/
  head : d.digits.head? ≠ some '0'

/-- The first digits start like all of them. -/
theorem Digits.Leading.take {d : Digits} (hd : d.Leading) {k : Nat} (hk : 0 < k) :
    AreDigits (d.digits.take k) ∧ (d.digits.take k).head? ≠ some '0' := by
  refine ⟨⟨?_, fun c hc => hd.digits.2 c (List.mem_of_mem_take hc)⟩, ?_⟩
  · exact fun hnil => (List.take_eq_nil_iff.mp hnil).elim hk.ne' hd.digits.1
  · rw [List.head?_take, if_neg hk.ne']
    exact hd.head

/-- Leaving out trailing zeros keeps the first digit. -/
theorem Digits.leading_ofScaled {a : Nat} (ha : 0 < a) (i : Int) : (ofScaled a i).Leading := by
  have hhead := Text.head?_digits_ne ha
  obtain ⟨omitted, hkept⟩ := List.rdropWhile_prefix (· == '0') (l := Text.digits a)
  have hne : List.rdropWhile (· == '0') (Text.digits a) ≠ [] := fun hnil => by
    obtain ⟨c, rest, htext, -⟩ := (Text.areDigits_digits a).exists_cons
    have hzero := List.rdropWhile_eq_nil_iff.mp hnil c (htext ▸ List.mem_cons_self)
    rw [htext, List.head?_cons, beq_iff_eq.mp hzero] at hhead
    exact hhead rfl
  constructor
  · refine ⟨hne, fun c hc => (Text.areDigits_digits a).2 c ?_⟩
    rw [← hkept]
    exact List.mem_append_left _ hc
  · rw [← hkept, List.head?_append_of_ne_nil _ hne] at hhead
    exact hhead

/-- Zero reads back as no positive value. -/
theorem Binary.readsBack_zero {x : Binary} (hx : 0 < x.mantissa) (i : Int) :
    x.readsBack 0 i = false := by
  have hbelow : ∀ low j, 0 < low → compareScaled 0 i low j = .lt := fun low j hlow => by
    rw [compareScaled, Nat.zero_mul, Nat.zero_mul, Nat.compare_eq_lt]
    exact Nat.mul_pos (Nat.mul_pos hlow (Nat.pow_pos (by norm_num))) (Nat.pow_pos (by norm_num))
  have hlow : 0 < if x.narrowBelow then 4 * x.mantissa - 1 else 4 * x.mantissa - 2 := by
    split <;> omega
  simp [readsBack, hbelow _ _ hlow]

/-- The digits of a point of a grid are those of a positive count that reads back. -/
theorem Binary.exists_readsBack {tie : Tie} {x : Binary} {i : Int} {d : Digits}
    (hx : 0 < x.mantissa) (h : x.onGrid? tie i = some d) :
    ∃ a, 0 < a ∧ x.readsBack a i = true ∧ d = .ofScaled a i := by
  have hpos : ∀ {a}, x.readsBack a i = true → 0 < a := fun {a} hreads =>
    Nat.pos_of_ne_zero fun hzero => by simp [hzero, readsBack_zero hx] at hreads
  have hpick : ∀ below, tie.pick below = below ∨ tie.pick below = below + 1 := fun below => by
    cases tie with
    | toEven =>
        rw [Tie.pick]
        split_ifs
        · exact .inl rfl
        · exact .inr rfl
    | up => exact .inr rfl
  simp only [onGrid?] at h
  split at h
  next => cases h
  next hlower hupper =>
    cases h
    exact ⟨_, hpos hlower, hlower, rfl⟩
  next hlower hupper =>
    cases h
    exact ⟨_, hpos hupper, hupper, rfl⟩
  next hlower hupper =>
    split at h
    next =>
      cases h
      exact ⟨_, hpos hlower, hlower, rfl⟩
    next =>
      cases h
      exact ⟨_, hpos hupper, hupper, rfl⟩
    next =>
      cases h
      rcases hpick (x.inUnits i) with hbelow | habove
      · exact ⟨_, hpos hlower, hlower, by rw [hbelow]⟩
      · exact ⟨_, hpos hupper, hupper, by rw [habove]⟩

theorem Binary.leading_onGrid? {tie : Tie} {x : Binary} {i : Int} {d : Digits}
    (hx : 0 < x.mantissa) (h : x.onGrid? tie i = some d) : d.Leading := by
  obtain ⟨a, hpos, -, rfl⟩ := exists_readsBack hx h
  exact Digits.leading_ofScaled hpos i

theorem Binary.leading_exact {x : Binary} (hx : 0 < x.mantissa) : x.exact.Leading := by
  unfold exact
  split
  next => exact Digits.leading_ofScaled (Nat.mul_pos hx (Nat.pow_pos (by norm_num))) _
  next => exact Digits.leading_ofScaled (Nat.mul_pos hx (Nat.pow_pos (by norm_num))) _

theorem Binary.leading_shortest {x : Binary} (hx : 0 < x.mantissa) (tie : Tie) :
    (x.shortest tie).Leading := by
  show (Option.getD _ x.exact).Leading
  cases hfound : (List.range 17).findSome?
      fun (n : Nat) => x.onGrid? tie (x.scale - ((n : Int) + 1)) with
  | none => exact leading_exact hx
  | some d =>
      obtain ⟨n, -, hgrid⟩ := List.exists_of_findSome?_eq_some hfound
      exact leading_onGrid? hx hgrid

end Decimal

namespace Numeral

theorem isDigit_of_mem_zeros {i : Int} {c : Char} (hc : c ∈ Decimal.zeros i) :
    c.isDigit = true := by
  rw [List.eq_of_mem_replicate hc]
  rfl

/-- Every layout of digits is well-formed. -/
theorem wellFormed_ofDigits {d : Decimal.Digits} (hd : d.Leading) (negative : Bool) :
    (ofDigits negative d).WellFormed := by
  obtain ⟨hne, hdigit⟩ := hd.digits
  have hback : ∀ k, ∀ c ∈ d.digits.drop k, c.isDigit = true :=
    fun k c hc => hdigit c (List.mem_of_mem_drop hc)
  unfold ofDigits
  split
  -- All digits before the point, with zeros up to it.
  next =>
    refine ⟨⟨by simp [hne], ?_⟩, ?_, by simp, fun e he => nomatch he⟩
    · intro c hc
      exact (List.mem_append.mp hc).elim (hdigit c) isDigit_of_mem_zeros
    · rw [List.head?_append_of_ne_nil _ hne]
      exact fun hzero => absurd hzero hd.head
  next =>
    split
    -- The point among the digits.
    next hpoint =>
      obtain ⟨hdigits, hlead⟩ := hd.take (k := d.point.toNat) (by omega)
      exact ⟨hdigits, fun hzero => absurd hzero hlead, hback _, fun e he => nomatch he⟩
    next =>
      split
      -- All digits behind the point, after zeros.
      next =>
        refine ⟨by simp [AreDigits], fun _ => rfl, ?_, fun e he => nomatch he⟩
        intro c hc
        exact (List.mem_append.mp hc).elim isDigit_of_mem_zeros (hdigit c)
      -- The point behind the first digit, and an exponent.
      next =>
        obtain ⟨hdigits, hlead⟩ := hd.take Nat.one_pos
        refine ⟨hdigits, fun hzero => absurd hzero hlead, hback 1, ?_⟩
        rintro e ⟨⟩
        exact Text.areDigits_digits _

/-- **What is written for a float is well-formed.** -/
theorem wellFormed_ofFloat? {x : Float} {n : Numeral} (hn : ofFloat? x = some n) :
    n.WellFormed := by
  unfold ofFloat? at hn
  split at hn
  next => cases hn
  next hfinite =>
    split at hn
    next =>
      cases hn
      constructor <;> simp [AreDigits]
    next hne =>
      cases hn
      have hpos := Decimal.Binary.mantissa_pos (by simpa using hfinite)
        (Bool.eq_false_of_not_eq_true hne)
      exact wellFormed_ofDigits (Decimal.Binary.leading_shortest hpos .toEven) _

end Numeral

end MarketSignals
