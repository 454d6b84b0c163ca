/-
  XmlRpc/Text/Blank.lean
  ======================
  **White space around a number.**

  A numeral may stand between blanks, and a blank is any character with the
  Unicode property `White_Space`. `trim` takes the blanks off both ends and
  leaves those inside alone. (The separators of markup are another, smaller
  set; see `XmlRpc.Markup`.)
-/
import XmlRpc.Text.Charset

namespace XmlRpc.Text

/-- The characters with the Unicode property `White_Space`. -/
def blanks : Charset :=
  [(0x0009, 0x000D), (0x0020, 0x0020), (0x0085, 0x0085), (0x00A0, 0x00A0), (0x1680, 0x1680),
   (0x2000, 0x200A), (0x2028, 0x2029), (0x202F, 0x202F), (0x205F, 0x205F), (0x3000, 0x3000)]

/-- Whether `c` is white space. -/
def isBlank (c : Char) : Bool :=
  blanks.contains c

/-- The text without the blanks at its end. -/
def trimEnd (text : List Char) : List Char :=
  (text.reverse.dropWhile isBlank).reverse

/-- The text without the blanks at its two ends. -/
def trim (text : List Char) : List Char :=
  trimEnd (text.dropWhile isBlank)

end XmlRpc.Text
