import MarketSignals.Json.Basic

/-!
# Writing JSON

The text of a document, without space between its parts.
-/

namespace MarketSignals

/-- An exponent behind its mark. -/
def Exponent.render (e : Exponent) : List Char :=
  'e' :: (if e.negative then '-' :: e.digits else e.digits)

/-- The digits behind the point, with the point, where there are any. -/
def Numeral.renderFraction (n : Numeral) : List Char :=
  if n.fraction.isEmpty then [] else '.' :: n.fraction

/-- A number as written. -/
def Numeral.render (n : Numeral) : List Char :=
  (if n.negative then ['-'] else []) ++ n.whole ++ n.renderFraction ++
    (n.exponent.map Exponent.render).getD []

namespace Json

/-- A string with its quotes. -/
def quoted (body : List Char) : List Char :=
  '"' :: body ++ ['"']

mutual

/-- The text of a document. -/
def render : Json → List Char
  | .null => ['n', 'u', 'l', 'l']
  | .bool true => ['t', 'r', 'u', 'e']
  | .bool false => ['f', 'a', 'l', 's', 'e']
  | .number numeral => numeral.render
  | .string body => quoted body
  | .array items => '[' :: renderItems items
  | .object members => '{' :: renderMembers members

/-- Documents with commas between them, and the closing bracket. -/
def renderItems : List Json → List Char
  | [] => [']']
  | [item] => render item ++ [']']
  | item :: items => render item ++ ',' :: renderItems items

/-- Named documents with commas between them, and the closing brace. -/
def renderMembers : List (List Char × Json) → List Char
  | [] => ['}']
  | [(name, value)] => quoted name ++ ':' :: render value ++ ['}']
  | (name, value) :: members => quoted name ++ ':' :: render value ++ ',' :: renderMembers members

end

/-- The text of a document, as a string. -/
def text (document : Json) : String :=
  String.ofList document.render

end Json

end MarketSignals
