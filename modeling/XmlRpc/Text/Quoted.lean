/-
  XmlRpc/Text/Quoted.lean
  =======================
  **A text between double quotes, on one line.**

  Messages and listings show a text so that its ends can be seen and every
  character can be told from every other. The quote and the backslash follow a
  backslash, as do the letters that stand for NUL, tab, line feed and carriage
  return; every other character that makes no mark of its own is written by its
  code point, and the rest as themselves.
-/
import XmlRpc.Text.Unprintable

namespace XmlRpc.Text

/-- The code point of `c` in lower-case hexadecimal, between braces. -/
def quotedNumber (c : Char) : List Char :=
  ['\\', 'u', '\x7b'] ++ Nat.toDigits 16 c.toNat ++ ['\x7d']

/-- One character as it stands between the quotes. -/
def quotedChar (c : Char) : List Char :=
  if c = '\x00' then ['\\', '0']
  else if c = '\t' then ['\\', 't']
  else if c = '\n' then ['\\', 'n']
  else if c = '\r' then ['\\', 'r']
  else if c = '\x22' then ['\\', '\x22']
  else if c = '\\' then ['\\', '\\']
  else if isUnprintable c then quotedNumber c
  else [c]

/-- The characters of `text` as they stand between the quotes. -/
def quotedChars (text : List Char) : List Char :=
  text.flatMap quotedChar

/-- `text` between double quotes. -/
def quoted (text : String) : String :=
  String.ofList ('\x22' :: quotedChars text.toList ++ ['\x22'])

end XmlRpc.Text
