/-!
# Strings in JSON

How a text is written between quotes, and how it is read back. A quote, a backslash and the
control characters are escaped, everything else stands for itself. Reading also accepts the
escaped slash and four hexadecimal digits for any character, two such escapes where a character
needs a pair of surrogates; a surrogate that stands alone denotes no character.
-/

namespace MarketSignals.Json

/-- The hexadecimal digit of a number below sixteen, in lower case. -/
def hexDigit (n : Nat) : Char :=
  if n < 10 then Char.ofNat (48 + n) else Char.ofNat (87 + n)

/-- The number a hexadecimal digit denotes. -/
def hexValue? (c : Char) : Option Nat :=
  if '0' ≤ c ∧ c ≤ '9' then some (c.toNat - 48)
  else if 'a' ≤ c ∧ c ≤ 'f' then some (c.toNat - 87)
  else if 'A' ≤ c ∧ c ≤ 'F' then some (c.toNat - 55)
  else none

/-- The number four hexadecimal digits denote. -/
def hexUnit? (a b c d : Char) : Option Nat := do
  let a ← hexValue? a
  let b ← hexValue? b
  let c ← hexValue? c
  let d ← hexValue? d
  some (((a * 16 + b) * 16 + c) * 16 + d)

/-- The letter that stands for a character behind a backslash, where there is a short form. -/
def escapeLetter? (c : Char) : Option Char :=
  if c = '"' then some '"'
  else if c = '\\' then some '\\'
  else if c = '\x08' then some 'b'
  else if c = '\x0c' then some 'f'
  else if c = '\n' then some 'n'
  else if c = '\r' then some 'r'
  else if c = '\t' then some 't'
  else none

/-- The character a letter behind a backslash denotes. -/
def letterMeaning? (c : Char) : Option Char :=
  if c = '"' then some '"'
  else if c = '\\' then some '\\'
  else if c = '/' then some '/'
  else if c = 'b' then some '\x08'
  else if c = 'f' then some '\x0c'
  else if c = 'n' then some '\n'
  else if c = 'r' then some '\r'
  else if c = 't' then some '\t'
  else none

/-- A character as it stands between quotes. -/
def escapeChar (c : Char) : List Char :=
  match escapeLetter? c with
  | some letter => ['\\', letter]
  | none =>
    if c.toNat < 0x20 then ['\\', 'u', '0', '0', hexDigit (c.toNat / 16), hexDigit (c.toNat % 16)]
    else [c]

/-- A text as it stands between quotes. -/
def escape (text : List Char) : List Char :=
  text.flatMap escapeChar

/-- Whether a 16-bit unit is the first half of a pair. -/
def isHighSurrogate (unit : Nat) : Bool :=
  0xD800 ≤ unit && unit < 0xDC00

/-- Whether a 16-bit unit is the second half of a pair. -/
def isLowSurrogate (unit : Nat) : Bool :=
  0xDC00 ≤ unit && unit < 0xE000

/-- The text that the body of a string denotes; none if a backslash has no meaning or a surrogate
stands alone. -/
def unescape? : List Char → Option (List Char)
  | [] => some []
  | '\\' :: 'u' :: a :: b :: c :: d :: rest =>
    match hexUnit? a b c d with
    | none => none
    | some unit =>
      if isHighSurrogate unit then
        match rest with
        | '\\' :: 'u' :: e :: f :: g :: h :: rest =>
          match hexUnit? e f g h with
          | some low =>
            if isLowSurrogate low then
              (unescape? rest).map
                (Char.ofNat (0x10000 + (unit - 0xD800) * 0x400 + (low - 0xDC00)) :: ·)
            else none
          | none => none
        | _ => none
      else if isLowSurrogate unit then none
      else (unescape? rest).map (Char.ofNat unit :: ·)
  | '\\' :: letter :: rest =>
    match letterMeaning? letter with
    | some c => (unescape? rest).map (c :: ·)
    | none => none
  | c :: rest => if c = '\\' then none else (unescape? rest).map (c :: ·)

/-- A short form reads back as the character it stands for. -/
theorem letterMeaning?_of_escapeLetter? {c letter : Char} (h : escapeLetter? c = some letter) :
    letterMeaning? letter = some c ∧ letter ≠ 'u' := by
  unfold escapeLetter? at h
  repeat' split at h
  all_goals simp_all
  all_goals subst_vars; decide

/-- A character without a short form is neither a quote nor a backslash. -/
theorem ne_of_escapeLetter?_eq_none {c : Char} (h : escapeLetter? c = none) :
    c ≠ '"' ∧ c ≠ '\\' := by
  constructor <;> rintro rfl <;> simp [escapeLetter?] at h

/-- A control character is read back from its four hexadecimal digits. -/
theorem hexUnit?_control {n : Nat} (h : n < 0x20) :
    hexUnit? '0' '0' (hexDigit (n / 16)) (hexDigit (n % 16)) = some n := by
  have : ∀ n : Fin 0x20,
      hexUnit? '0' '0' (hexDigit (n.val / 16)) (hexDigit (n.val % 16)) = some n.val := by decide
  exact this ⟨n, h⟩

/-- What is written between quotes reads back as the text. -/
theorem unescape?_escape (text : List Char) : unescape? (escape text) = some text := by
  induction text with
  | nil => rfl
  | cons c rest ih =>
    have step : escape (c :: rest) = escapeChar c ++ escape rest := rfl
    rw [step]
    unfold escapeChar
    split
    · rename_i letter h
      obtain ⟨meaning, notU⟩ := letterMeaning?_of_escapeLetter? h
      have short : ∀ tail : List Char, unescape? ('\\' :: letter :: tail) =
          (unescape? tail).map (c :: ·) := by
        intro tail
        rw [unescape?.eq_3 _ _ (by rintro a b c d rest rfl; exact absurd rfl notU), meaning]
      simp [short, ih]
    · rename_i h
      obtain ⟨_, notBackslash⟩ := ne_of_escapeLetter?_eq_none h
      split
      · rename_i control
        have unit := hexUnit?_control control
        have notHigh : isHighSurrogate c.toNat = false := by
          simp only [isHighSurrogate, Bool.and_eq_false_iff, decide_eq_false_iff_not]; omega
        have notLow : isLowSurrogate c.toNat = false := by
          simp only [isLowSurrogate, Bool.and_eq_false_iff, decide_eq_false_iff_not]; omega
        simp only [List.cons_append, List.nil_append]
        unfold unescape?
        simp [unit, notHigh, notLow, ih]
      · simp only [List.cons_append, List.nil_append]
        unfold unescape?
        split <;> simp_all

end MarketSignals.Json
