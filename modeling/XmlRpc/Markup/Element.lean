/-
  XmlRpc/Markup/Element.lean
  ==========================
  **The element tree of a document.**

  An element has a name, the elements directly inside it in order, and all the
  text directly inside it in one piece. Text never counts as a child, so a
  document laid out over many lines has the same children as a compact one.
-/

namespace XmlRpc.Markup

/-- An element with its text and its child elements. -/
structure Element where
  name : String
  text : String
  children : List Element
deriving Repr, Inhabited

namespace Element

/-- An element with nothing in it. -/
def empty (name : String) : Element :=
  ⟨name, "", []⟩

/-- Puts a piece of text after the text that is there. -/
def appendText (e : Element) (piece : String) : Element :=
  { e with text := e.text ++ piece }

/-- Puts an element after the children that are there. -/
def appendChild (e child : Element) : Element :=
  { e with children := e.children ++ [child] }

/-- The first child with a name. -/
def child? (name : String) (e : Element) : Option Element :=
  e.children.find? fun child => child.name = name

/-- The first child. -/
def firstChild? (e : Element) : Option Element :=
  e.children.head?

/-- Whether anything stands inside the element. -/
def hasContent (e : Element) : Bool :=
  !e.children.isEmpty || e.text != ""

mutual

/-- The first element with a name in document order, the element itself included. -/
def find? (name : String) : Element → Option Element
  | ⟨own, text, children⟩ =>
    if own = name then some ⟨own, text, children⟩ else findIn? name children

/-- The first element with a name in a list of trees, one tree after the other. -/
def findIn? (name : String) : List Element → Option Element
  | [] => none
  | child :: rest => (find? name child).or (findIn? name rest)

end

mutual

/-- The elements of a tree in document order, each with its depth. -/
def levels (depth : Nat) : Element → List (Nat × Element)
  | ⟨name, text, children⟩ => (depth, ⟨name, text, children⟩) :: levelsIn (depth + 1) children

/-- The elements of a list of trees at one depth, one tree after the other. -/
def levelsIn (depth : Nat) : List Element → List (Nat × Element)
  | [] => []
  | child :: rest => levels depth child ++ levelsIn depth rest

end

end Element

end XmlRpc.Markup
