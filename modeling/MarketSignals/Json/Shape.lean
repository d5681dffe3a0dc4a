import MarketSignals.Json.Number
import MarketSignals.Json.Escape
import MarketSignals.Keyed

/-!
# Values in JSON

What a document denotes where a value of one kind is expected: a text, a count, a float, a list,
one of several names, a record. A record is an object with its fields by name or an array with
its fields in order; unknown names are skipped, and a known name may occur once.

A document may also be kept as it is. Then all its numbers and strings have to denote something,
it may not nest too deeply, and it is kept in normal form.
-/

namespace MarketSignals.Json

/-! ### Writing -/

/-- A text as a document. -/
def ofText (text : String) : Json :=
  .string (escape text.toList)

/-- A count as a document. -/
def ofNat (count : Nat) : Json :=
  .number (.ofNat count)

/-- A float as a document; `null` stands for infinities and for what is no number. -/
def ofFloat (x : Float) : Json :=
  match Numeral.ofFloat? x with
  | some numeral => .number numeral
  | none => .null

/-- Texts as a document. -/
def ofTexts (texts : List String) : Json :=
  .array (texts.map ofText)

/-- A record as an object. -/
def ofFields (fields : List (String × Json)) : Json :=
  .object (fields.map fun (name, value) => (escape name.toList, value))

/-! ### Reading -/

/-- The text a string's body denotes. -/
def bodyText? (body : List Char) : Option String :=
  (unescape? body).map String.ofList

/-- The text a document denotes. -/
def text? : Json → Option String
  | .string body => bodyText? body
  | _ => none

/-- The count a document denotes. -/
def count? : Json → Option Nat
  | .number numeral => numeral.count?
  | _ => none

/-- The float a document denotes; an integer denotes one too. -/
def float? : Json → Option Float
  | .number numeral => numeral.float?
  | _ => none

/-- The truth value a document denotes. -/
def bool? : Json → Option Bool
  | .bool value => some value
  | _ => none

/-- The list a document denotes, each item read on its own. -/
def list? {α : Type} (read : Json → Option α) : Json → Option (List α)
  | .array items => items.mapM read
  | _ => none

/-- The name a document denotes where one of several is expected: a string, or an object with the
name as its only member and `null` for a value. -/
def name? : Json → Option String
  | .string body => bodyText? body
  | .object [(body, .null)] => bodyText? body
  | _ => none

/-- A member with its name read. -/
def namedMember? (member : List Char × Json) : Option (String × Json) :=
  (bodyText? member.1).map (·, member.2)

/-- The fields of a record with the given names: those of the names that occur, each once, or in
an array as many of the names as there are items. -/
def fields? (names : List String) : Json → Option (List (String × Json))
  | .object members => do
    let named ← members.mapM namedMember?
    let known := named.filter (names.contains ·.1)
    if (known.map (·.1)).Nodup then some known else none
  | .array items => if items.length ≤ names.length then some (names.zip items) else none
  | _ => none

/-- The value of a field that has to occur. -/
def required {α : Type} (fields : List (String × Json)) (name : String)
    (read : Json → Option α) : Option α :=
  (Keyed.find? name fields).bind read

/-- The value of a field that may be left out. -/
def optional {α : Type} (fields : List (String × Json)) (name : String)
    (read : Json → Option α) (absent : α) : Option α :=
  match Keyed.find? name fields with
  | some value => read value
  | none => some absent

/-! ### Documents kept as they are -/

mutual

/-- Whether every number and every string in a document denotes something. -/
def isMeaningful : Json → Bool
  | .number numeral => numeral.float?.isSome
  | .string body => (unescape? body).isSome
  | .array items => areMeaningful items
  | .object members => membersAreMeaningful members
  | _ => true

/-- Whether that holds of every document in a list. -/
def areMeaningful : List Json → Bool
  | [] => true
  | item :: items => isMeaningful item && areMeaningful items

/-- Whether that holds of every named document in a list, names included. -/
def membersAreMeaningful : List (List Char × Json) → Bool
  | [] => true
  | (name, value) :: members =>
    (unescape? name).isSome && isMeaningful value && membersAreMeaningful members

end

mutual

/-- The document as this library writes it: numbers and strings in their normal form, and of
members with one name the last. -/
def normal : Json → Json
  | .number numeral => .number (numeral.normal?.getD numeral)
  | .string body => .string (escape ((unescape? body).getD body))
  | .array items => .array (normalItems items)
  | .object members => ofFields (Keyed.ofList (normalMembers members)).entries
  | document => document

/-- The documents of a list in normal form. -/
def normalItems : List Json → List Json
  | [] => []
  | item :: items => normal item :: normalItems items

/-- The named documents of a list in normal form, with their names read. -/
def normalMembers : List (List Char × Json) → List (String × Json)
  | [] => []
  | (name, value) :: members =>
    (String.ofList ((unescape? name).getD name), normal value) :: normalMembers members

end

/-- The members of an object that is kept as it is, inside `enclosing` arrays and objects. -/
def members? (enclosing : Nat) : Json → Option (Keyed Json)
  | .object members =>
    if membersAreMeaningful members && enclosing + 1 + depthOfMembers members ≤ maxDepth then
      some (.ofList (normalMembers members))
    else none
  | _ => none

mutual

/-- The document with `null` for every empty object. Where a document is held whole before it is
read, an empty object stands for the absence of a value. -/
def emptyAsNull : Json → Json
  | .object [] => .null
  | .object members => .object (membersEmptyAsNull members)
  | .array items => .array (itemsEmptyAsNull items)
  | document => document

/-- The documents of a list, each with `null` for every empty object. -/
def itemsEmptyAsNull : List Json → List Json
  | [] => []
  | item :: items => emptyAsNull item :: itemsEmptyAsNull items

/-- The named documents of a list, each with `null` for every empty object. -/
def membersEmptyAsNull : List (List Char × Json) → List (List Char × Json)
  | [] => []
  | (name, value) :: members => (name, emptyAsNull value) :: membersEmptyAsNull members

end

end MarketSignals.Json
