import MarketSignals.Json.Escape

/-!
# Request targets

What is asked of a server, for what stands behind the server's name in an address. Tabs and line
ends do not count, a backslash divides like a slash, `.` and `..` are followed, a character that may
not stand in an address is written as its bytes in hexadecimal, and a fragment is not sent. A
segment that names a drive is a root: `..` does not leave it.

## Main results

* `escape_eq_self` — a part of which every character may stand in it is sent as it is.
* `resolve_eq_self` — segments without `.` and `..` are sent as they are.
* `target?_eq_none_iff` — there is a target unless the server's name goes on.
-/

namespace MarketSignals.Target

/-- Whether a character does not count in an address. -/
def isSkipped (c : Char) : Bool :=
  c == '\t' || c == '\n' || c == '\r'

/-- Whether a character divides a path. -/
def isDivider (c : Char) : Bool :=
  c == '/' || c == '\\'

/-- Whether a character may stand neither in a path nor in a query. -/
def isForeign (c : Char) : Bool :=
  c.toNat ≤ 0x20 || 0x7F ≤ c.toNat || c == '"' || c == '#' || c == '<' || c == '>'

/-- Whether a character may not stand in a path. -/
def isForeignToPath (c : Char) : Bool :=
  isForeign c || c == '?' || c == '\x60' || c == '\x7b' || c == '\x7d'

/-- Whether a character may not stand in a query. -/
def isForeignToQuery (c : Char) : Bool :=
  isForeign c || c == '\''

/-- A byte in hexadecimal behind a percent sign. -/
def escapeByte (byte : UInt8) : List Char :=
  ['%', (Json.hexDigit (byte.toNat / 16)).toUpper, (Json.hexDigit (byte.toNat % 16)).toUpper]

/-- A part of an address, the characters that may not stand in it written as their bytes. -/
def escape (isForeign : Char → Bool) (part : List Char) : List Char :=
  part.flatMap fun c => if isForeign c then (String.utf8EncodeChar c).flatMap escapeByte else [c]

/-- Whether a segment of a path stays where it is. -/
def isHere (segment : List Char) : Bool :=
  segment.map Char.toLower ∈ [".".toList, "%2e".toList]

/-- Whether a segment of a path leads back by one. -/
def isUp (segment : List Char) : Bool :=
  segment.map Char.toLower ∈ ["..".toList, ".%2e".toList, "%2e.".toList, "%2e%2e".toList]

/-- Whether a segment of a path names a drive: a letter and a colon or a bar. -/
def isDrive : List Char → Bool
  | [letter, mark] => letter.isAlpha && (mark == ':' || mark == '|')
  | _ => false

/-- The segments without the latest, which comes first; a drive stays. -/
def leave : List (List Char) → List (List Char)
  | [] => []
  | latest :: before => if isDrive latest then latest :: before else before

/-- The segments that are left when `.` and `..` are followed, behind those passed before, of which
the latest comes first. -/
def resolve (passed : List (List Char)) : List (List Char) → List (List Char)
  | [] => passed.reverse
  | segment :: rest =>
    if isUp segment || isHere segment then
      let passed := if isUp segment then leave passed else passed
      resolve (if rest.isEmpty then [] :: passed else passed) rest
    else resolve (segment :: passed) rest

/-- A path, written out behind its first divider. -/
def path (text : List Char) : List Char :=
  (resolve [] (text.splitOnP isDivider)).flatMap fun segment =>
    '/' :: escape isForeignToPath segment

/-- The characters of an address that count and are not of its fragment. -/
def sent (text : List Char) : List Char :=
  (text.filter fun c => !isSkipped c).takeWhile (· != '#')

/-- What is asked of the server; none if the text goes on with the server's name. -/
def target? (text : List Char) : Option (List Char) :=
  let query := escape isForeignToQuery ((sent text).dropWhile (· != '?'))
  match (sent text).takeWhile (· != '?') with
  | [] => some ('/' :: query)
  | c :: rest => if isDivider c then some (path rest ++ query) else none

/-- A part of which every character may stand in it is sent as it is. -/
theorem escape_eq_self {isForeign : Char → Bool} {part : List Char}
    (h : ∀ c ∈ part, isForeign c = false) : escape isForeign part = part := by
  induction part with
  | nil => rfl
  | cons c rest ih =>
    simp only [List.mem_cons, forall_eq_or_imp] at h
    have step : escape isForeign (c :: rest) =
        (if isForeign c then (String.utf8EncodeChar c).flatMap escapeByte else [c]) ++
          escape isForeign rest := rfl
    simp [step, h.1, ih h.2]

/-- Segments without `.` and `..` are sent as they are, behind those passed before. -/
theorem resolve_eq_self {passed segments : List (List Char)}
    (h : ∀ segment ∈ segments, isUp segment = false ∧ isHere segment = false) :
    resolve passed segments = passed.reverse ++ segments := by
  induction segments generalizing passed with
  | nil => simp [resolve]
  | cons segment rest ih =>
    simp only [List.mem_cons, forall_eq_or_imp] at h
    simp [resolve, h.1.1, h.1.2, ih h.2]

/-- There is no target just when the text that is sent starts with neither a divider nor a query. -/
theorem target?_eq_none_iff (text : List Char) :
    target? text = none ↔
      ∃ c rest, sent text = c :: rest ∧ c ≠ '?' ∧ isDivider c = false := by
  cases h : sent text with
  | nil => simp [target?, h]
  | cons c rest =>
    by_cases query : c = '?'
    · simp [target?, h, query]
    · cases divider : isDivider c <;> simp [target?, h, query, divider]

end MarketSignals.Target
