import MarketSignals.Json.Reader

/-!
# Reading JSON from bytes

The parts of a document are told apart by ASCII characters alone, so the grammar is read byte by
byte; each string is then read as UTF-8. A string that is no UTF-8 denotes nothing, which matters
only where its value is asked for.
-/

namespace MarketSignals.Json

/-- The body of a string that denotes nothing. -/
def meaningless : List Char :=
  ['\\']

/-- The text of bytes that stand for themselves. -/
def utf8Body (bytes : List Char) : List Char :=
  match String.fromUTF8? ⟨(bytes.map fun c => UInt8.ofNat c.toNat).toArray⟩ with
  | some text => text.toList
  | none => meaningless

mutual

/-- The document with a function of each string's body. -/
def mapBodies (f : List Char → List Char) : Json → Json
  | .string body => .string (f body)
  | .array items => .array (mapItems f items)
  | .object members => .object (mapMembers f members)
  | document => document

/-- The documents of a list, each with a function of each string's body. -/
def mapItems (f : List Char → List Char) : List Json → List Json
  | [] => []
  | item :: items => mapBodies f item :: mapItems f items

/-- The named documents of a list, each with a function of each string's body. -/
def mapMembers (f : List Char → List Char) : List (List Char × Json) → List (List Char × Json)
  | [] => []
  | (name, value) :: members => (f name, mapBodies f value) :: mapMembers f members

end

/-- The document that bytes hold. -/
def readBytes? (bytes : ByteArray) : Option Json :=
  (read? (bytes.toList.map fun byte => Char.ofNat byte.toNat)).map (mapBodies utf8Body)

end MarketSignals.Json
