/-
  XmlRpc/Text/Charset.lean
  ========================
  **Sets of characters, given by their ranges of code points.**

  A property of the Unicode standard is a table of ranges. A `Charset` is such
  a table, and membership is a search through it; a table names each range by
  its first and its last code point, both included.
-/

namespace XmlRpc.Text

/-- A set of characters: the inclusive ranges of its code points. -/
abbrev Charset := List (Nat × Nat)

namespace Charset

/-- Whether one of the ranges holds the code point of `c`. -/
def contains (set : Charset) (c : Char) : Bool :=
  set.any fun range => range.1 ≤ c.toNat && c.toNat ≤ range.2

theorem contains_iff {set : Charset} {c : Char} :
    set.contains c = true ↔ ∃ range ∈ set, range.1 ≤ c.toNat ∧ c.toNat ≤ range.2 := by
  simp [contains]

end Charset

end XmlRpc.Text
