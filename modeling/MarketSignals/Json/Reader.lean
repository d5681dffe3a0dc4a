import MarketSignals.Json.Basic
import MarketSignals.Json.Escape

/-!
# Reading JSON

The grammar of JSON over a list of characters. Each reader returns what it read and the rest.
The readers of nested values take a bound on the number of steps; a text is never longer than
the steps that `read?` grants it.
-/

namespace MarketSignals.Json

/-- The characters that may stand between the parts of a document. -/
def isSpace (c : Char) : Bool :=
  c = ' ' || c = '\n' || c = '\t' || c = '\r'

/-- The text without the space in front. -/
def skipSpace (text : List Char) : List Char :=
  text.dropWhile isSpace

/-- A string's body up to the closing quote, and the text behind the quote. -/
def readBody : List Char → Option (List Char × List Char)
  | [] => none
  | '"' :: rest => some ([], rest)
  | '\\' :: 'u' :: a :: b :: c :: d :: rest =>
    if (hexUnit? a b c d).isSome then
      (readBody rest).map fun (body, rest) => ('\\' :: 'u' :: a :: b :: c :: d :: body, rest)
    else none
  | '\\' :: letter :: rest =>
    if (letterMeaning? letter).isSome then
      (readBody rest).map fun (body, rest) => ('\\' :: letter :: body, rest)
    else none
  | c :: rest =>
    if c = '\\' || c.toNat < 0x20 then none
    else (readBody rest).map fun (body, rest) => (c :: body, rest)

/-- The digits in front of a text, and the rest. -/
def readDigits (text : List Char) : List Char × List Char :=
  text.span Char.isDigit

/-- At least one digit, and the rest. -/
def readDigits? (text : List Char) : Option (List Char × List Char) :=
  match readDigits text with
  | ([], _) => none
  | (digits, rest) => some (digits, rest)

/-- The digits before the point: a zero stands alone. -/
def readWhole? : List Char → Option (List Char × List Char)
  | '0' :: rest => if (rest.head?.map Char.isDigit) == some true then none else some (['0'], rest)
  | text => readDigits? text

/-- A point with the digits behind it, where there is one. -/
def readFraction? : List Char → Option (List Char × List Char)
  | '.' :: rest => readDigits? rest
  | text => some ([], text)

/-- The sign of an exponent. -/
def readExponentSign : List Char → Bool × List Char
  | '-' :: rest => (true, rest)
  | '+' :: rest => (false, rest)
  | text => (false, text)

/-- An exponent, where there is one. -/
def readExponent? : List Char → Option (Option Exponent × List Char)
  | c :: rest =>
    if c = 'e' || c = 'E' then
      let (negative, rest) := readExponentSign rest
      (readDigits? rest).map fun (digits, rest) => (some ⟨negative, digits⟩, rest)
    else some (none, c :: rest)
  | [] => some (none, [])

/-- A number without its sign. -/
def readMagnitude? (negative : Bool) (text : List Char) : Option (Numeral × List Char) := do
  let (whole, rest) ← readWhole? text
  let (fraction, rest) ← readFraction? rest
  let (exponent, rest) ← readExponent? rest
  some (⟨negative, whole, fraction, exponent⟩, rest)

/-- A number. -/
def readNumeral? : List Char → Option (Numeral × List Char)
  | '-' :: rest => readMagnitude? true rest
  | text => readMagnitude? false text

mutual

/-- A document, after any space. -/
def readValue : Nat → List Char → Option (Json × List Char)
  | 0, _ => none
  | steps + 1, text =>
    match skipSpace text with
    | 'n' :: 'u' :: 'l' :: 'l' :: rest => some (.null, rest)
    | 't' :: 'r' :: 'u' :: 'e' :: rest => some (.bool true, rest)
    | 'f' :: 'a' :: 'l' :: 's' :: 'e' :: rest => some (.bool false, rest)
    | '"' :: rest => (readBody rest).map fun (body, rest) => (.string body, rest)
    | '[' :: rest =>
      match skipSpace rest with
      | ']' :: rest => some (.array [], rest)
      | rest => (readItems steps rest).map fun (items, rest) => (.array items, rest)
    | '{' :: rest =>
      match skipSpace rest with
      | '}' :: rest => some (.object [], rest)
      | rest => (readMembers steps rest).map fun (members, rest) => (.object members, rest)
    | text => (readNumeral? text).map fun (numeral, rest) => (.number numeral, rest)

/-- At least one item, commas between them, and the closing bracket. -/
def readItems : Nat → List Char → Option (List Json × List Char)
  | 0, _ => none
  | steps + 1, text =>
    match readValue steps text with
    | none => none
    | some (item, rest) =>
      match skipSpace rest with
      | ',' :: rest => (readItems steps rest).map fun (items, rest) => (item :: items, rest)
      | ']' :: rest => some ([item], rest)
      | _ => none

/-- At least one member, commas between them, and the closing brace. -/
def readMembers : Nat → List Char → Option (List (List Char × Json) × List Char)
  | 0, _ => none
  | steps + 1, text =>
    match readMember steps text with
    | none => none
    | some (member, rest) =>
      match skipSpace rest with
      | ',' :: rest => (readMembers steps rest).map fun (members, rest) => (member :: members, rest)
      | '}' :: rest => some ([member], rest)
      | _ => none

/-- A name, a colon and a document. -/
def readMember : Nat → List Char → Option ((List Char × Json) × List Char)
  | 0, _ => none
  | steps + 1, text =>
    match skipSpace text with
    | '"' :: rest =>
      match readBody rest with
      | none => none
      | some (name, rest) =>
        match skipSpace rest with
        | ':' :: rest => (readValue steps rest).map fun (value, rest) => ((name, value), rest)
        | _ => none
    | _ => none

end

/-- The document a text holds, space around it allowed and nothing else. -/
def read? (text : List Char) : Option Json :=
  match readValue (2 * text.length + 1) text with
  | some (document, rest) => if (skipSpace rest).isEmpty then some document else none
  | none => none

end MarketSignals.Json
