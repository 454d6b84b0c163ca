/-
  XmlRpc/Markup/Entity.lean
  =========================
  **Character references in running text.**

  Text between tags writes the five characters that markup could take for its
  own by name, and may write any character by its number. `escape` writes the
  five by name and nothing else; `unescape` reads both forms and says what is
  wrong with the first reference it cannot read. Positions count bytes of UTF-8
  from the start of the piece of text.
-/
import XmlRpc.Number.Numeral
import XmlRpc.Text.Quoted
import XmlRpc.Text.Utf8

namespace XmlRpc.Markup

/-- Why a reference stands for no character. -/
inductive EntityError where
  /-- Another ampersand or the end of the text comes before the semicolon. -/
  | unterminated (start stop : Nat)
  /-- The name is none of the five. -/
  | unknownName (start stop : Nat) (name : String)
  /-- The number is zero, or has no digits. -/
  | nullCharacter (start stop : Nat)
  /-- More hexadecimal digits than any character needs. -/
  | longHexadecimal
  /-- More decimal digits than any character needs. -/
  | longDecimal
  /-- The first byte that is no hexadecimal digit. -/
  | badHexadecimal (byte : Char)
  /-- The first byte that is no decimal digit. -/
  | badDecimal (byte : Char)
  /-- The number is no character's. -/
  | noCharacter (code : Nat)
deriving DecidableEq, Repr

/-- A range of positions. -/
def EntityError.range (start stop : Nat) : String :=
  Numeral.text start ++ ".." ++ Numeral.text stop

/-- The message that reports the error. -/
def EntityError.message : EntityError → String
  | unterminated start stop =>
    "Error while escaping character at range " ++ range start stop
      ++ ": Cannot find ';' after '&'"
  | unknownName start stop name =>
    "Error while escaping character at range " ++ range start stop
      ++ ": Unrecognized escape symbol: " ++ Text.quoted name
  | nullCharacter start stop =>
    "Error while escaping character at range " ++ range start stop
      ++ ": Null character entity not allowed"
  | longHexadecimal => "Cannot convert hexadecimal to utf8"
  | longDecimal => "Cannot convert decimal to utf8"
  | badHexadecimal byte => "'" ++ String.singleton byte ++ "' is not a valid hexadecimal character"
  | badDecimal byte => "'" ++ String.singleton byte ++ "' is not a valid decimal character"
  | noCharacter code => "'" ++ Numeral.text code ++ "' is not a valid codepoint"

/-! ### Writing -/

/-- One character as it is written in running text. -/
def escapeChar (c : Char) : List Char :=
  if c = '<' then ['&', 'l', 't', ';']
  else if c = '>' then ['&', 'g', 't', ';']
  else if c = '&' then ['&', 'a', 'm', 'p', ';']
  else if c = '\x27' then ['&', 'a', 'p', 'o', 's', ';']
  else if c = '\x22' then ['&', 'q', 'u', 'o', 't', ';']
  else [c]

/-- A text as it is written between tags. -/
def escape (text : String) : String :=
  String.ofList (text.toList.flatMap escapeChar)

/-! ### Reading -/

/-- The digit that a character stands for in base sixteen, in either case. -/
def hexadecimalDigit? (c : Char) : Option Nat :=
  if '0' ≤ c ∧ c ≤ '9' then some (c.toNat - '0'.toNat)
  else if 'a' ≤ c ∧ c ≤ 'f' then some (c.toNat - 'a'.toNat + 10)
  else if 'A' ≤ c ∧ c ≤ 'F' then some (c.toNat - 'A'.toNat + 10)
  else none

/-- The digit that a character stands for in base ten. -/
def decimalDigit? (c : Char) : Option Nat :=
  if '0' ≤ c ∧ c ≤ '9' then some (c.toNat - '0'.toNat) else none

/-- Reads digits onto a number; the first character that is no digit is the error. -/
def readDigits (base : Nat) (digit? : Char → Option Nat) (bad : Char → EntityError)
    (code : Nat) : List Char → Except EntityError Nat
  | [] => .ok code
  | c :: rest =>
    match digit? c with
    | some digit => readDigits base digit? bad (code * base + digit) rest
    | none => .error (bad (Text.leadByte c))

/-- The number of a numeric reference, which is what stands between `#` and the semicolon. -/
def characterCode : List Char → Except EntityError Nat
  | 'x' :: digits =>
    if 6 < Text.utf8Length digits then .error .longHexadecimal
    else readDigits 16 hexadecimalDigit? .badHexadecimal 0 digits
  | digits =>
    if 7 < Text.utf8Length digits then .error .longDecimal
    else readDigits 10 decimalDigit? .badDecimal 0 digits

/-- The character with a number; `start` and `stop` are where its reference begins and ends. -/
def characterOf (start stop code : Nat) : Except EntityError Char :=
  if code = 0 then .error (.nullCharacter start stop)
  else if code.isValidChar then .ok (Char.ofNat code)
  else .error (.noCharacter code)

/-- The character that a reference stands for. The ampersand stands at `start`, the semicolon at
    `stop`, and the name between them. -/
def resolve (start stop : Nat) : List Char → Except EntityError Char
  | ['l', 't'] => .ok '<'
  | ['g', 't'] => .ok '>'
  | ['a', 'm', 'p'] => .ok '&'
  | ['a', 'p', 'o', 's'] => .ok '\x27'
  | ['q', 'u', 'o', 't'] => .ok '\x22'
  | '#' :: number => (characterCode number).bind (characterOf start stop)
  | name => .error (.unknownName (start + 1) stop (String.ofList name))

/-- Splits at the first semicolon, unless an ampersand or the end comes first. -/
def splitReference? : List Char → Option (List Char × List Char)
  | [] => none
  | c :: rest =>
    if c = ';' then some ([], rest)
    else if c = '&' then none
    else (splitReference? rest).map fun parts => (c :: parts.1, parts.2)

theorem eq_of_splitReference? {text name after : List Char}
    (h : splitReference? text = some (name, after)) : text = name ++ ';' :: after := by
  induction text generalizing name with
  | nil => simp [splitReference?] at h
  | cons c rest ih =>
    unfold splitReference? at h
    split at h
    · next hc => simp_all
    · split at h
      · simp at h
      · obtain ⟨parts, hp, he⟩ := Option.map_eq_some_iff.1 h
        obtain ⟨rfl, rfl⟩ := Prod.mk.inj he
        simp [← ih hp]

/-- Reads the references of a text that begins at `offset`. -/
def unescapeFrom (offset : Nat) (text : List Char) : Except EntityError (List Char) :=
  match text with
  | [] => .ok []
  | c :: rest =>
    if c = '&' then
      match h : splitReference? rest with
      | none => .error (.unterminated offset (offset + Text.utf8Length text))
      | some (name, after) => do
        let stop := offset + 1 + Text.utf8Length name
        let character ← resolve offset stop name
        let tail ← unescapeFrom (stop + 1) after
        return character :: tail
    else do
      let tail ← unescapeFrom (offset + c.utf8Size) rest
      return c :: tail
termination_by text.length
decreasing_by
  · have := congrArg List.length (eq_of_splitReference? h)
    simp at this ⊢
    omega
  · simp

/-- Reads the references of a piece of text. -/
def unescape (text : String) : Except EntityError String :=
  (unescapeFrom 0 text.toList).map String.ofList

end XmlRpc.Markup
