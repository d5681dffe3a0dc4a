import MarketSignals.Decimal.Plain
import MarketSignals.Json.Basic

/-!
# Numbers in JSON

What a numeral denotes, and how counts, integers and floats are written. A numeral without
point and exponent denotes an integer where it fits 64 bits, and every numeral denotes a float:
its digits are gathered while they stay below `2 ^ 64`, and the gathered integer is scaled by the
power of ten that is left. A numeral beyond the largest float denotes nothing.

A float is written with the fewest digits that identify it, with a point or an exponent always. Of
two equally near decimals the one with an even last digit is written.
-/

namespace MarketSignals

/-- A power of ten up to the 308th, to the nearest float. -/
def powerOfTen (n : Nat) : Float :=
  Float.ofScientific 1 false n

namespace Numeral

/-- Whether the numeral has neither point nor exponent. -/
def isPlain (n : Numeral) : Bool :=
  n.fraction.isEmpty && n.exponent.isNone

/-- The integer a plain numeral denotes, if it fits 64 bits with or without a sign. The text
`-0` denotes no integer. -/
def integer? (n : Numeral) : Option Int :=
  let magnitude := Text.value n.whole
  if !n.isPlain then none
  else if n.negative then
    if 0 < magnitude && magnitude ≤ Nat.pow 2 63 then some (-(magnitude : Int)) else none
  else if magnitude < Nat.pow 2 64 then some (magnitude : Int)
  else none

/-- The count a numeral denotes: an integer without a sign. -/
def count? (n : Numeral) : Option Nat :=
  match n.integer? with
  | some (.ofNat count) => some count
  | _ => none

/-- Appends digits to a total while it stays below `2 ^ 64`; the digits from the first that does
not fit are returned. -/
def gather (total : Nat) : List Char → Nat × List Char
  | [] => (total, [])
  | c :: rest =>
    let next := total * 10 + (c.toNat - '0'.toNat)
    if next < Nat.pow 2 64 then gather next rest else (total, c :: rest)

/-- A float times a power of ten. A power beyond the 308th overflows; one beyond the reciprocal of
the 308th is reached by steps of that size. -/
def scale? (x : Float) (exponent : Int) : Option Float :=
  if exponent.natAbs ≤ 308 then
    if 0 ≤ exponent then
      let product := x * powerOfTen exponent.natAbs
      if product.isInf then none else some product
    else some (x / powerOfTen exponent.natAbs)
  else if x == 0 then some x
  else if 0 ≤ exponent then none
  else scale? (x / powerOfTen 308) (exponent + 308)
termination_by exponent.natAbs

/-- The largest exponent that is kept; beyond it a numeral is nothing or zero. -/
def maxExponent : Nat := Nat.pow 2 31 - 1

/-- The float without its sign that a gathered integer and the written exponent denote. -/
def magnitude? (significand : Nat) (shift : Int) : Option Exponent → Option Float
  | none => scale? (Float.ofNat significand) shift
  | some exponent =>
    let size := Text.value exponent.digits
    if size ≤ maxExponent then
      scale? (Float.ofNat significand) (if exponent.negative then shift - size else shift + size)
    else if significand = 0 || exponent.negative then some 0
    else none

/-- The float a numeral denotes. -/
def float? (n : Numeral) : Option Float :=
  let (whole, beyond) := gather 0 n.whole
  let (significand, dropped) := gather whole n.fraction
  let shift : Int := beyond.length + dropped.length - n.fraction.length
  (magnitude? significand shift n.exponent).map fun x => if n.negative then -x else x

/-- A count in digits. -/
def ofNat (count : Nat) : Numeral :=
  ⟨false, Text.digits count, [], none⟩

/-- An integer in digits, with a minus sign where it is negative. -/
def ofInt (i : Int) : Numeral :=
  ⟨i < 0, Text.digits i.natAbs, [], none⟩

/-- The layout of a float's digits: up to sixteen places before the point and up to four zeros
behind it are written out, and an exponent stands for more. -/
def ofDigits (negative : Bool) (d : Decimal.Digits) : Numeral :=
  if d.digits.length ≤ d.point ∧ d.point ≤ 16 then
    ⟨negative, d.digits ++ Decimal.zeros (d.point - d.digits.length), ['0'], none⟩
  else if 0 < d.point ∧ d.point ≤ 16 then
    ⟨negative, d.digits.take d.point.toNat, d.digits.drop d.point.toNat, none⟩
  else if -5 < d.point ∧ d.point ≤ 0 then
    ⟨negative, ['0'], Decimal.zeros (-d.point) ++ d.digits, none⟩
  else
    ⟨negative, d.digits.take 1, d.digits.drop 1,
      some ⟨d.point - 1 < 0, Text.digits (d.point - 1).natAbs⟩⟩

/-- A float as a numeral; infinities and what is no number have none. -/
def ofFloat? (x : Float) : Option Numeral :=
  if !x.isFinite then none
  else if x == 0 then some ⟨Decimal.isNegative x, ['0'], ['0'], none⟩
  else some (ofDigits (Decimal.isNegative x) (Decimal.shortest .toEven x))

/-- A numeral that denotes the same number, as this library writes it. -/
def normal? (n : Numeral) : Option Numeral :=
  match n.integer? with
  | some i => some (ofInt i)
  | none => n.float?.bind ofFloat?

end Numeral

end MarketSignals
