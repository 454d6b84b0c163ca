/-
  XmlRpc/Main.lean
  ================
  **The program.**

  Reads the words on the command line and, for a reply, the text to be shown;
  everything else is decided by `XmlRpc.Command`.
-/
import XmlRpc.Command

namespace XmlRpc.Main

/-- The number of an error of the system, which may be given with its sign changed. -/
def systemNumber (code : UInt32) : UInt32 :=
  if code < 0x80000000 then code else 0 - code

/-- The cause behind a refusal to read. -/
def sourceError : IO.Error → SourceError
  | .noFileOrDirectory .. => .missing
  | .permissionDenied .. => .forbidden
  | .inappropriateType _ code reason =>
    if systemNumber code = 20 then .notDirectory
    else if systemNumber code = 21 then .directory
    else .refused reason
  | .invalidArgument _ code reason =>
    if systemNumber code = 36 then .nameTooLong else .refused reason
  | error => .refused (toString error)

/-- The bytes of a file, or of the standard input, as text. -/
def readSource (file : Option String) : IO (Except SourceError String) := do
  try
    let bytes ←
      match file with
      | some name => IO.FS.readBinFile name
      | none => (← IO.getStdin).readBinToEnd
    return Source.decode bytes
  catch error => return .error (sourceError error)

/-- The text that a request needs, if it needs one. -/
def sourceFor : Command.Invocation → IO (Except SourceError String)
  | .run _ (.decode file _) => readSource file
  | _ => return .ok ""

end XmlRpc.Main

/-- Runs the command. -/
def main (words : List String) : IO UInt32 := do
  let invocation := XmlRpc.Command.parse words
  let source ← XmlRpc.Main.sourceFor invocation
  let outcome := invocation.outcome fun _ => source
  (← IO.getStdout).putStr outcome.output
  if let some report := outcome.report then
    (← IO.getStderr).putStr report
  return outcome.code.toUInt32
