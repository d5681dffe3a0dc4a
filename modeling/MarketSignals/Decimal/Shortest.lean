import MarketSignals.Text.Digits

/-!
# Shortest decimals

The fewest decimal digits that identify a binary floating point value. The value is taken apart
into `mantissa · 2 ^ exponent`; the reals that round to it form an interval, ends included
exactly when the mantissa is even; and the first decimal grid with a point in that interval
gives the digits. Where two points of the grid are equally near, it is for the writer to say which
is taken. All comparisons are exact, on natural numbers.
-/

namespace MarketSignals.Decimal

/-- A finite binary value without its sign: `mantissa · 2 ^ exponent`. -/
structure Binary where
  /-- The integer that the power of two scales. -/
  mantissa : Nat
  /-- The power of two. -/
  exponent : Int
  /-- The gap to the next value below is half the gap to the next value above. -/
  narrowBelow : Bool
deriving DecidableEq

/-- The value that 64 bits denote; the sign is left out, and the bits are those of a finite
number. -/
def Binary.ofBits (bits : UInt64) : Binary :=
  let exponent := ((bits >>> 52) &&& 0x7FF).toNat
  let fraction := (bits &&& 0xFFFFFFFFFFFFF).toNat
  if exponent = 0 then ⟨fraction, -1074, false⟩
  else ⟨Nat.pow 2 52 + fraction, (exponent : Int) - 1075, fraction == 0 && exponent > 1⟩

/-- Compares `a · 10 ^ i` with `b · 2 ^ j`. -/
def compareScaled (a : Nat) (i : Int) (b : Nat) (j : Int) : Ordering :=
  compare (a * Nat.pow 10 i.toNat * Nat.pow 2 (-j).toNat)
    (b * Nat.pow 2 j.toNat * Nat.pow 10 (-i).toNat)

/-- Whether `a · 10 ^ i` lies among the reals that round to the value, to nearest and ties to
even. -/
def Binary.readsBack (x : Binary) (a : Nat) (i : Int) : Bool :=
  let low := if x.narrowBelow then 4 * x.mantissa - 1 else 4 * x.mantissa - 2
  let high := 4 * x.mantissa + 2
  let closed := x.mantissa % 2 == 0
  let fromLow := compareScaled a i low (x.exponent - 2)
  let toHigh := compareScaled a i high (x.exponent - 2)
  (fromLow == .gt || (closed && fromLow == .eq)) && (toHigh == .lt || (closed && toHigh == .eq))

/-- The least `k` with the value below `10 ^ k`. The binary logarithm gives a first guess that is
never too large and at most two too small. -/
def Binary.scale (x : Binary) : Int :=
  let guess := ((x.mantissa.log2 : Int) + x.exponent) * 30103 / 100000
  (([guess, guess + 1, guess + 2].find?
    fun k => compareScaled 1 k x.mantissa x.exponent == .gt)).getD (guess + 3)

/-- The value in units of `10 ^ i`, rounded down. -/
def Binary.inUnits (x : Binary) (i : Int) : Nat :=
  (x.mantissa * Nat.pow 2 x.exponent.toNat * Nat.pow 10 (-i).toNat) /
    (Nat.pow 10 i.toNat * Nat.pow 2 (-x.exponent).toNat)

/-- A decimal `0.d₁d₂d₃… · 10 ^ point`. -/
structure Digits where
  /-- The digits, the most significant first. -/
  digits : List Char
  /-- How many of the digits stand before the decimal point. -/
  point : Int
deriving DecidableEq

/-- The decimal `a · 10 ^ i`, trailing zeros left out. -/
def Digits.ofScaled (a : Nat) (i : Int) : Digits :=
  let all := Text.digits a
  ⟨(all.reverse.dropWhile (· == '0')).reverse, (all.length : Int) + i⟩

/-- Which of two equally near decimals is taken. -/
inductive Tie where
  /-- The one whose last digit is even. -/
  | toEven
  /-- The larger one. -/
  | up
deriving DecidableEq

/-- The one taken of two neighbours that are equally near, given the smaller. -/
def Tie.pick (tie : Tie) (below : Nat) : Nat :=
  match tie with
  | .toEven => if below % 2 = 0 then below else below + 1
  | .up => below + 1

/-- The nearest of the decimals in units of `10 ^ i` that read back as the value. -/
def Binary.onGrid? (tie : Tie) (x : Binary) (i : Int) : Option Digits :=
  let below := x.inUnits i
  match x.readsBack below i, x.readsBack (below + 1) i with
  | false, false => none
  | true, false => some (.ofScaled below i)
  | false, true => some (.ofScaled (below + 1) i)
  | true, true =>
    match compareScaled (2 * below + 1) i x.mantissa (x.exponent + 1) with
    | .gt => some (.ofScaled below i)
    | .lt => some (.ofScaled (below + 1) i)
    | .eq => some (.ofScaled (tie.pick below) i)

/-- Every digit of the value. -/
def Binary.exact (x : Binary) : Digits :=
  if x.exponent < 0 then .ofScaled (x.mantissa * Nat.pow 5 x.exponent.natAbs) x.exponent
  else .ofScaled (x.mantissa * Nat.pow 2 x.exponent.toNat) 0

/-- The fewest digits that read back as a positive value, and of those the nearest. Seventeen
digits suffice for every value of 64 bits. -/
def Binary.shortest (tie : Tie) (x : Binary) : Digits :=
  let scale := x.scale
  ((List.range 17).findSome? fun (n : Nat) => x.onGrid? tie (scale - ((n : Int) + 1))).getD x.exact

/-- The fewest digits that identify a finite, non-zero float, its sign left out. -/
def shortest (tie : Tie) (x : Float) : Digits :=
  (Binary.ofBits x.toBits).shortest tie

/-- Whether the sign bit is set. -/
def isNegative (x : Float) : Bool :=
  x.toBits >>> 63 == 1

end MarketSignals.Decimal
