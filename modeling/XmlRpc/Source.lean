/-
  XmlRpc/Source.lean
  ==================
  **What can go wrong when the text of a reply is fetched.**

  A reply is read from a file or from the standard input. Each constructor is one
  cause that keeps its text away; the wording is in `SourceError.message` alone.
-/

namespace XmlRpc

/-- The reasons why the text of a reply cannot be had. -/
inductive SourceError where
  /-- There is no file of that name. -/
  | missing
  /-- The name is a folder's. -/
  | directory
  /-- The path goes on through a file as if it were a folder. -/
  | notDirectory
  /-- The path, or a name in it, is longer than names may be. -/
  | nameTooLong
  /-- The file may not be read. -/
  | forbidden
  /-- The bytes are no text. -/
  | notText
  /-- Another refusal, in its own words. -/
  | refused (reason : String)
deriving DecidableEq, Repr

/-- The message that reports the error. -/
def SourceError.message : SourceError → String
  | missing => "No such file or directory (os error 2)"
  | directory => "Is a directory (os error 21)"
  | notDirectory => "Not a directory (os error 20)"
  | nameTooLong => "File name too long (os error 36)"
  | forbidden => "Permission denied (os error 13)"
  | notText => "stream did not contain valid UTF-8"
  | refused reason => reason

/-- The text that bytes stand for. -/
def Source.decode (bytes : ByteArray) : Except SourceError String :=
  match String.fromUTF8? bytes with
  | some text => .ok text
  | none => .error .notText

end XmlRpc
