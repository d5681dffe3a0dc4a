import MarketSignals.Decimal.Shortest

/-!
# Floats in plain notation

How a float is written in messages and in the metrics text: the fewest digits that identify it,
always positional, without a point for whole numbers. Of two equally near decimals the larger is
written.
-/

namespace MarketSignals.Decimal

/-- Zeros, as many as an integer says. -/
def zeros (n : Int) : List Char :=
  List.replicate n.toNat '0'

/-- The digits with the point between them, or behind as many zeros as the point asks for. -/
def Digits.positional (d : Digits) : List Char :=
  if d.point ≤ 0 then '0' :: '.' :: zeros (-d.point) ++ d.digits
  else if d.point < d.digits.length then
    d.digits.take d.point.toNat ++ '.' :: d.digits.drop d.point.toNat
  else d.digits ++ zeros (d.point - d.digits.length)

/-- A minus sign in front of the text of a negative number. -/
def withSign (negative : Bool) (text : List Char) : List Char :=
  if negative then '-' :: text else text

/-- A float in plain notation: no exponent, no point for whole numbers, and the names `NaN`,
`inf` and `-inf` for what is no finite number. -/
def plain (x : Float) : List Char :=
  if x.isNaN then "NaN".toList
  else withSign (isNegative x) <|
    if x.isInf then "inf".toList
    else if x == 0 then ['0']
    else (shortest .up x).positional

end MarketSignals.Decimal
