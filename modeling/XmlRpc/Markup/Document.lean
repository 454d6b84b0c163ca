/-
  XmlRpc/Markup/Document.lean
  ===========================
  **From the events of a document to its element tree.**

  A `Builder` holds the elements that are open, the innermost first, and the
  root once it is complete. Each event changes it or is refused: at most 512
  start tags may be open at once, only one element may stand at the top level,
  and the references of a text are looked at only inside an element. At the end
  nothing may be open and there has to be a root.

  The errors of a document come in the order of its text. An event that the
  builder refuses stands before whatever ended the transcript, so the builder's
  error is reported first.
-/
import XmlRpc.Markup.Element
import XmlRpc.Markup.Transcript

namespace XmlRpc.Markup

/-- Why a text is no well-formed document. -/
inductive IllFormed where
  /-- A piece cannot be read, or an end tag does not fit. -/
  | unreadable (error : ReadError)
  /-- A reference in a text cannot be read. -/
  | badReference (error : EntityError)
  /-- An element is closed where none is open. -/
  | unexpectedClosing
  /-- An element stands at the top level after the root. -/
  | secondRoot (name : String)
  /-- The document ends inside an element. -/
  | unclosed (name : String)
  /-- The document has no element at all. -/
  | noRoot
deriving DecidableEq, Repr

/-- The message that reports the error. -/
def IllFormed.message : IllFormed → String
  | unreadable error => error.message
  | badReference error => error.message
  | unexpectedClosing => "unexpected closing tag"
  | secondRoot name => "second root element <" ++ name ++ ">"
  | unclosed name => "unclosed element <" ++ name ++ ">"
  | noRoot => "document has no root element"

/-- Why a text has no element tree. -/
inductive DocumentError where
  | illFormed (cause : IllFormed)
  /-- More than `maxDepth` start tags are open at once. -/
  | tooDeep
deriving DecidableEq, Repr

/-- The number of start tags that may be open at once. -/
def maxDepth : Nat := 512

/-- A tree in the making. -/
structure Builder where
  /-- The open elements, the innermost first. -/
  opened : List Element
  /-- The complete element of the top level. -/
  root : Option Element
deriving Repr

namespace Builder

/-- Nothing is open and nothing complete. -/
def start : Builder :=
  ⟨[], none⟩

/-- Puts a complete element where it belongs: into the innermost open one, or at the top level. -/
def attach (b : Builder) (e : Element) : Except DocumentError Builder :=
  match b.opened, b.root with
  | parent :: outer, root => .ok ⟨parent.appendChild e :: outer, root⟩
  | [], none => .ok ⟨[], some e⟩
  | [], some _ => .error (.illFormed (.secondRoot e.name))

/-- Puts a piece of text into the innermost open element. -/
def appendText (b : Builder) (piece : String) : Builder :=
  match b.opened with
  | [] => b
  | innermost :: outer => { b with opened := innermost.appendText piece :: outer }

/-- Takes an event into the tree. -/
def feed (b : Builder) : Event → Except DocumentError Builder
  | .opening name =>
    if maxDepth ≤ b.opened.length then .error .tooDeep
    else .ok { b with opened := .empty name :: b.opened }
  | .selfClosed name => b.attach (.empty name)
  | .closing _ =>
    match b.opened with
    | [] => .error (.illFormed .unexpectedClosing)
    | complete :: outer => attach { b with opened := outer } complete
  | .text content =>
    if b.opened = [] then .ok b
    else
      match content with
      | .ok piece => .ok (b.appendText piece)
      | .error error => .error (.illFormed (.badReference error))
  | .literal piece => .ok (b.appendText piece)
  | .ignored => .ok b

/-- Takes events into the tree one after the other, up to the first that is refused. -/
def feedAll (b : Builder) (events : List Event) : Except DocumentError Builder :=
  events.foldlM feed b

/-- The tree at the end of the document. -/
def finish (b : Builder) : Except DocumentError Element :=
  match b.opened, b.root with
  | innermost :: _, _ => .error (.illFormed (.unclosed innermost.name))
  | [], some root => .ok root
  | [], none => .error (.illFormed .noRoot)

end Builder

namespace Element

/-- The tree of a complete sequence of events. -/
def ofEvents (events : List Event) : Except DocumentError Element :=
  (Builder.start.feedAll events).bind Builder.finish

/-- The tree of a transcript: the builder's error first, then the transcript's own. -/
def ofTranscript (transcript : Transcript) : Except DocumentError Element :=
  match transcript.failure with
  | none => ofEvents transcript.events
  | some error =>
    (Builder.start.feedAll transcript.events).bind fun _ => .error (.illFormed (.unreadable error))

/-- The root element of a document. -/
def parse (document : String) : Except DocumentError Element :=
  ofTranscript (Transcript.ofDocument document.toList)

end Element

end XmlRpc.Markup
