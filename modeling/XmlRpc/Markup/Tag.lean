/-
  XmlRpc/Markup/Tag.lean
  ======================
  **Writing an element.**

  A written element is its content between a start tag and an end tag. The name
  and the content are taken as they are; a content that is text has to be
  escaped first (`XmlRpc.Markup.escape`).
-/

namespace XmlRpc.Markup

/-- The start tag of a name. -/
def openTag (name : String) : String :=
  "<" ++ name ++ ">"

/-- The end tag of a name. -/
def closeTag (name : String) : String :=
  "</" ++ name ++ ">"

/-- A content between the start tag and the end tag of a name. -/
def tagged (name content : String) : String :=
  openTag name ++ content ++ closeTag name

end XmlRpc.Markup
