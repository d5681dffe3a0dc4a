/-!
# JSON documents

A JSON document as a tree that keeps what is written. A number is kept by its digits and a
string by its body between the quotes, so that reading a document settles its grammar only;
what a number or a string denotes is settled where a value of that kind is asked for.
-/

namespace MarketSignals

/-- The exponent part of a number. -/
structure Exponent where
  /-- A minus sign stands in front. -/
  negative : Bool
  /-- The digits. -/
  digits : List Char
deriving DecidableEq

/-- A number as written. -/
structure Numeral where
  /-- A minus sign stands in front. -/
  negative : Bool
  /-- The digits before the point. -/
  whole : List Char
  /-- The digits behind the point, none where no point is written. -/
  fraction : List Char := []
  /-- The exponent, if one is written. -/
  exponent : Option Exponent := none
deriving DecidableEq

/-- A JSON document. -/
inductive Json where
  /-- The word `null`. -/
  | null
  /-- The words `true` and `false`. -/
  | bool (value : Bool)
  /-- A number. -/
  | number (numeral : Numeral)
  /-- A string, by the characters between its quotes. -/
  | string (body : List Char)
  /-- A list of documents. -/
  | array (items : List Json)
  /-- A list of named documents; a name is kept as written, like a string. -/
  | object (members : List (List Char × Json))

namespace Json

mutual

/-- How many arrays and objects enclose the innermost value. -/
def depth : Json → Nat
  | .array items => 1 + depthOfItems items
  | .object members => 1 + depthOfMembers members
  | _ => 0

/-- The greatest depth in a list of documents. -/
def depthOfItems : List Json → Nat
  | [] => 0
  | item :: items => max (depth item) (depthOfItems items)

/-- The greatest depth in a list of named documents. -/
def depthOfMembers : List (List Char × Json) → Nat
  | [] => 0
  | (_, value) :: members => max (depth value) (depthOfMembers members)

end

/-- How many arrays and objects may enclose a value that is kept as a document. -/
def maxDepth : Nat := 127

end Json

end MarketSignals
