/-
  XmlRpc/Markup/Event.lean
  ========================
  **The pieces of a document, one after the other.**

  A document is read as a sequence of events: tags, runs of text, literal
  sections, and pieces that carry nothing for the reader of the tree (comments,
  instructions and the document type). `Event.next` takes the first one off the
  text that is left.

  What a piece is depends on its first characters alone, and each kind has its
  own rule for where it ends:

    * text ends before the next `<`;
    * an end tag and an instruction end at the next `>`, or with the document;
    * a start tag ends at the first `>` outside quotes;
    * a comment ends at the first `>` after `--`, a literal section at the first
      `>` after `]]`, and a document type at the first `>` before which as many
      angle brackets were closed as opened.

  Nothing is looked up outside the piece, so the events of a text do not depend
  on which elements are open.
-/
import XmlRpc.Markup.Entity

namespace XmlRpc.Markup

/-- A piece of a document. -/
inductive Event where
  /-- A start tag. -/
  | opening (name : String)
  /-- The tag of an element without content. -/
  | selfClosed (name : String)
  /-- An end tag, with the name as it is written. -/
  | closing (written : String)
  /-- A run of text with its references read, or the first reference that cannot be read. -/
  | text (content : Except EntityError String)
  /-- A literal section, in which nothing is markup. -/
  | literal (content : String)
  /-- A comment, an instruction or a document type. -/
  | ignored
deriving Repr

/-- The constructs that have an end which may be missing. -/
inductive Construct where
  | declaration
  | literal
  | comment
  | documentType
  | instruction
  | tag
deriving DecidableEq, Repr

/-- The word for a construct in messages. -/
def Construct.label : Construct → String
  | declaration => "Bang"
  | literal => "CData"
  | comment => "Comment"
  | documentType => "DOCTYPE"
  | instruction => "XmlDecl"
  | tag => "Element"

/-- Why no event, or no fitting one, can be read. -/
inductive ReadError where
  /-- The construct does not end, or does not begin as its kind has to. -/
  | unfinished (construct : Construct)
  /-- After `<!` stands a byte with which no construct begins. -/
  | unknownDeclaration (byte : Char)
  /-- A document type names nothing. -/
  | emptyDocumentType
  /-- An end tag does not close the innermost open element. -/
  | mismatchedEnd (expected found : String)
deriving DecidableEq, Repr

/-- The message that reports the error. -/
def ReadError.message : ReadError → String
  | unfinished construct => "Unexpected EOF during reading " ++ construct.label
  | unknownDeclaration byte =>
    "Only Comment (`--`), CDATA (`[CDATA[`) and DOCTYPE (`DOCTYPE`) nodes can start with a '!', "
      ++ "but symbol `" ++ String.singleton byte ++ "` found"
  | emptyDocumentType => "DOCTYPE declaration must not be empty"
  | mismatchedEnd expected found => "Expecting </" ++ expected ++ "> found </" ++ found ++ ">"

/-- What stands at the front of a text. -/
inductive Reading where
  /-- Nothing is left, or only a `<`. -/
  | done
  | failed (error : ReadError)
  | event (event : Event) (rest : List Char)
deriving Repr

/-! ### Where a piece ends -/

/-- Splits at the first `>`, which belongs to neither part; without one the first part is all. -/
def splitAtAngle (text : List Char) : List Char × List Char :=
  (text.takeWhile (· ≠ '>'), (text.dropWhile (· ≠ '>')).drop 1)

/-- Splits at the first `>` at which the characters before it, the nearest first, are `ready`.
    `seen` are those before `text`. -/
def splitWhere? (ready : List Char → Bool) (seen : List Char) :
    List Char → Option (List Char × List Char)
  | [] => none
  | c :: rest =>
    if c = '>' ∧ ready seen then some (seen.reverse, rest)
    else splitWhere? ready (c :: seen) rest

/-- Splits at the first `>` outside quotes. `quote` is the quote that is open. -/
def splitTag? (quote : Option Char) : List Char → Option (List Char × List Char)
  | [] => none
  | c :: rest =>
    match quote with
    | none =>
      if c = '>' then some ([], rest)
      else
        (splitTag? (if c = '\x22' ∨ c = '\x27' then some c else none) rest).map
          fun parts => (c :: parts.1, parts.2)
    | some opened =>
      (splitTag? (if c = opened then none else some opened) rest).map
        fun parts => (c :: parts.1, parts.2)

/-! ### Names and keywords -/

/-- The characters that separate the parts of a tag. -/
def isSeparator (c : Char) : Bool :=
  c = ' ' || c = '\r' || c = '\n' || c = '\t'

/-- What is written, without the `blank` characters at its end. Blanks alone are kept. -/
def withoutEnd (blank : Char → Bool) (written : String) : String :=
  let name := (written.toList.reverse.dropWhile blank).reverse
  if name = [] then written else String.ofList name

/-- The name that an end tag closes: what is written without the separators after it. (Of the
    white space of ASCII only the form feed is no separator; it belongs to the name.) -/
def closedName (written : String) : String :=
  withoutEnd isSeparator written

/-- Whether a text begins with an ASCII keyword, in either case. -/
def startsWith (keyword : List Char) (text : List Char) : Bool :=
  (text.take keyword.length).map Char.toLower = keyword.map Char.toLower

/-! ### Reading each kind of piece -/

/-- A start tag or the tag of an empty element, from what stands between the angle brackets. -/
def tagEvent (content : List Char) : Event :=
  if content.getLast? = some '/' then
    .selfClosed (String.ofList (content.dropLast.takeWhile (!isSeparator ·)))
  else
    .opening (String.ofList (content.takeWhile (!isSeparator ·)))

/-- Reads a tag after its `<`. -/
def readTag (text : List Char) : Reading :=
  match splitTag? none text with
  | none => .failed (.unfinished .tag)
  | some (content, rest) => .event (tagEvent content) rest

/-- Reads an end tag after its `</`. -/
def readClosing (text : List Char) : Reading :=
  let (written, rest) := splitAtAngle text
  .event (.closing (String.ofList written)) rest

/-- Reads an instruction after its `<?`. It has to end in a question mark of its own. -/
def readInstruction (text : List Char) : Reading :=
  let (content, rest) := splitAtAngle text
  if content.getLast? = some '?' ∧ 2 ≤ content.length then .event .ignored rest
  else .failed (.unfinished .instruction)

/-- Whether a comment may end here: two hyphens just before, and two more at its beginning. -/
def endsComment : List Char → Bool
  | '-' :: '-' :: _ :: _ :: _ => true
  | _ => false

/-- Reads a comment after its `<!`. -/
def readComment (text : List Char) : Reading :=
  match splitWhere? endsComment [] text with
  | none => .failed (.unfinished .comment)
  | some (content, rest) =>
    if startsWith ['-', '-'] content then .event .ignored rest
    else .failed (.unfinished .comment)

/-- Whether a literal section may end here: two brackets just before. -/
def endsLiteral : List Char → Bool
  | ']' :: ']' :: _ => true
  | _ => false

/-- The keyword of a literal section. -/
def literalKeyword : List Char := ['[', 'C', 'D', 'A', 'T', 'A', '[']

/-- Reads a literal section after its `<!`. -/
def readLiteral (text : List Char) : Reading :=
  match splitWhere? endsLiteral [] text with
  | none => .failed (.unfinished .literal)
  | some (content, rest) =>
    let inner := content.take (content.length - 2)
    if startsWith literalKeyword inner then
      .event (.literal (String.ofList (inner.drop literalKeyword.length))) rest
    else
      .failed (.unfinished .literal)

/-- Whether a document type may end here: as many brackets closed as opened. -/
def endsDocumentType (seen : List Char) : Bool :=
  seen.count '<' = seen.count '>'

/-- The keyword of a document type. -/
def documentTypeKeyword : List Char := ['D', 'O', 'C', 'T', 'Y', 'P', 'E']

/-- Reads a document type after its `<!`. -/
def readDocumentType (text : List Char) : Reading :=
  match splitWhere? endsDocumentType [] text with
  | none => .failed (.unfinished .documentType)
  | some (content, rest) =>
    if !startsWith documentTypeKeyword content then .failed (.unfinished .documentType)
    else if (content.drop documentTypeKeyword.length).all isSeparator then
      .failed .emptyDocumentType
    else .event .ignored rest

/-- Reads what follows a `<!`. -/
def readDeclaration : List Char → Reading
  | [] => .failed (.unfinished .declaration)
  | c :: rest =>
    if c = '[' then readLiteral (c :: rest)
    else if c = '-' then readComment (c :: rest)
    else if c = 'D' ∨ c = 'd' then readDocumentType (c :: rest)
    else .failed (.unknownDeclaration (Text.leadByte c))

/-- Reads what follows a `<`. A `<` with nothing after it ends the document. -/
def readMarkup : List Char → Reading
  | [] => .done
  | c :: rest =>
    if c = '!' then readDeclaration rest
    else if c = '/' then readClosing rest
    else if c = '?' then readInstruction rest
    else readTag (c :: rest)

/-- Reads a run of text. -/
def readText (text : List Char) : Reading :=
  .event (.text (unescape (String.ofList (text.takeWhile (· ≠ '<')))))
    (text.dropWhile (· ≠ '<'))

/-- Takes the first event off a text. -/
def Event.next : List Char → Reading
  | [] => .done
  | c :: rest => if c = '<' then readMarkup rest else readText (c :: rest)

end XmlRpc.Markup
