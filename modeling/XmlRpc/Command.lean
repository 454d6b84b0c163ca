/-
  XmlRpc/Command.lean
  ===================
  **The command line.**

  The command writes the document of a call, or shows the reply to one:

      pomctl [-v|--verbose]... [--json] call METHOD [ARGS]...
      pomctl [-v|--verbose]... [--json] decode [INPUT] [--action LABEL]

  Words are read from left to right and the first one that does not fit decides.
  Options of the whole command stand before the name of the subcommand. After
  METHOD every word is an argument, whatever it looks like.

  An exit code of 0 says that the output is complete, 1 that the request failed
  for a reason that the report gives, and 2 that the words are no request.
-/
import XmlRpc.Call
import XmlRpc.Node.Json
import XmlRpc.Node.Outline
import XmlRpc.Source

namespace XmlRpc.Command

/-! ### Requests -/

/-- What is asked for. -/
inductive Request where
  /-- The document of a call, from words that alternate between tags and texts. -/
  | call (method : String) (words : List String)
  /-- The content of a reply, from a file or from the standard input. -/
  | decode (file : Option String) (action : Option String)
deriving DecidableEq, Repr

/-- What the words on the command line ask for. -/
inductive Invocation where
  | run (json : Bool) (request : Request)
  | version
  | help
  /-- The words do not fit. -/
  | usage
deriving DecidableEq, Repr

/-- The words for a number of options that may stand in one word after a single hyphen. -/
def cluster? (word : String) : Option (List Char) :=
  match word.toList with
  | '-' :: c :: rest => if c = '-' then none else some (c :: rest)
  | _ => none

/-- Whether a word has the form of an option; a hyphen alone has not. -/
def looksLikeOption (word : String) : Bool :=
  match word.toList with
  | '-' :: _ :: _ => true
  | _ => false

/-- A word in the place of a value that is no value: a request for help, or a mistake. -/
def refuse (word : String) : Invocation :=
  match cluster? word with
  | some ('h' :: _) => .help
  | _ => if word = "--help" then .help else .usage

/-- The words after METHOD. A first `--` only separates, and help may still be asked for. -/
def parseArguments (method : String) (words : List String) : Except Invocation Request :=
  match words with
  | [] => .ok (.call method [])
  | first :: rest =>
    if first = "--" then .ok (.call method rest)
    else if first = "--help" then .error .help
    else if "--help=".toList.isPrefixOf first.toList then .error .usage
    else
      match cluster? first with
      | some letters =>
        if letters.all (· = 'h') then .error .help else .ok (.call method words)
      | none => .ok (.call method words)

/-- The words after `call`. -/
def parseCall : List String → Except Invocation Request
  | [] => .error .usage
  | word :: rest =>
    if word = "--" then
      match rest with
      | [] => .error .usage
      | method :: words => .ok (.call method words)
    else if looksLikeOption word then .error (refuse word)
    else parseArguments word rest

/-- The words after `decode` and a `--`, which can only be the INPUT. -/
def parseInput (file action : Option String) : List String → Except Invocation Request
  | [] => .ok (.decode file action)
  | word :: rest =>
    if file.isSome || word = "" then .error .usage else parseInput (some word) action rest

/-- The label in a word of the form `--action=LABEL`. -/
def attachedLabel? (word : String) : Option String :=
  if "--action=".toList.isPrefixOf word.toList then
    some (String.ofList (word.toList.drop "--action=".length))
  else
    none

/-- The words after `decode`; `file` and `action` are what was read of them so far. -/
def parseDecode (file action : Option String) : List String → Except Invocation Request
  | [] => .ok (.decode file action)
  | word :: rest =>
    if word = "--" then parseInput file action rest
    else if word = "--action" then
      match rest with
      | [] => .error .usage
      | label :: rest =>
        if action.isSome || looksLikeOption label then .error .usage
        else parseDecode file (some label) rest
    else
      match attachedLabel? word with
      | some label =>
        if action.isSome then .error .usage else parseDecode file (some label) rest
      | none =>
        if looksLikeOption word then .error (refuse word)
        else if file.isSome || word = "" then .error .usage
        else parseDecode (some word) action rest

/-- The letters of a cluster of options of the whole command; the first that is not `v` decides. -/
def parseCluster : List Char → Option Invocation
  | [] => none
  | c :: rest =>
    if c = 'v' then parseCluster rest
    else if c = 'V' then some .version
    else if c = 'h' then some .help
    else some .usage

/-- The words after `help`, which may name one subcommand. -/
def parseHelp : List String → Invocation
  | [] => .help
  | [word] => if word = "call" || word = "decode" || word = "help" then .help else .usage
  | _ => .usage

/-- What a subcommand's words ask for. -/
def invocation (json : Bool) (parsed : Except Invocation Request) : Invocation :=
  match parsed with
  | .ok request => .run json request
  | .error other => other

/-- The words of the whole command; `json` says whether `--json` was among those read so far. -/
def parseFrom (json : Bool) : List String → Invocation
  | [] => .usage
  | word :: rest =>
    if word = "--json" then
      if json then .usage else parseFrom true rest
    else if word = "--verbose" then parseFrom json rest
    else if word = "--version" then .version
    else if word = "--help" then .help
    else if word = "help" then parseHelp rest
    else if word = "call" then invocation json (parseCall rest)
    else if word = "decode" then invocation json (parseDecode none none rest)
    else
      match (cluster? word).map parseCluster with
      | none => .usage
      | some none => parseFrom json rest
      | some (some decided) => decided

/-- What the words on the command line ask for. -/
def parse (words : List String) : Invocation :=
  parseFrom false words

/-! ### Answers -/

/-- What the command leaves behind. -/
structure Outcome where
  code : Nat
  output : String
  /-- What is reported when the request failed. -/
  report : Option String
deriving DecidableEq, Repr

namespace Outcome

/-- The request is answered. -/
def success (output : String) : Outcome :=
  ⟨0, output, none⟩

/-- The request failed for one reason. -/
def failure (reason : String) : Outcome :=
  ⟨1, "", some ("Error: " ++ reason ++ "\n")⟩

/-- Puts four spaces at the beginning of every line but the first. -/
def indentLines (text : String) : String :=
  String.ofList (text.toList.flatMap fun c => if c = '\n' then "\n    ".toList else [c])

/-- The request failed while something was done, for a cause that stands below it. -/
def failureOf (doing cause : String) : Outcome :=
  failure (doing ++ "\n\nCaused by:\n    " ++ indentLines cause)

/-- The words are no request. -/
def usage : Outcome :=
  ⟨2, "", none⟩

end Outcome

/-- The JSON form of a call, with where and as what it is sent. -/
def callToJson (call : Call) : Json :=
  .object
    [("path", .string Call.path), ("content_type", .string Call.contentType),
     ("method", .string call.method), ("body", .string call.toWire)]

/-- Writes the document of a call. -/
def answerCall (json : Bool) (method : String) (words : List String) : Outcome :=
  match Arguments.ofWords words with
  | .error error => .failureOf ("build arguments for " ++ method) error.message
  | .ok params =>
    let call : Call := ⟨method, params⟩
    .success ((if json then (callToJson call).render else call.toWire) ++ "\n")

/-- Shows the text of a reply. -/
def answerReply (json : Bool) (action : Option String) (body : String) : Outcome :=
  match Call.answer body with
  | .error error => .failureOf "decode reply" error.message
  | .ok (.success node) =>
    .success (if json then node.toJson.render ++ "\n" else node.listing)
  | .ok (.fault fault) => .failure (fault.describe (action.getD "call"))

/-- What is done to get the text of a reply. -/
def sourceLabel : Option String → String
  | some file => "read " ++ file
  | none => "read reply from stdin"

/-- Answers a request; `source` gives the text of a file, or of the standard input. -/
def Request.answer (json : Bool) (source : Option String → Except SourceError String) :
    Request → Outcome
  | call method words => answerCall json method words
  | decode file action =>
    match source file with
    | .error error => .failureOf (sourceLabel file) error.message
    | .ok body => answerReply json action body

/-- The name and the version of the command. -/
def versionLine : String := "pomctl 0.1.0\n"

/-- Does what the words on the command line ask for. Asking for help shows nothing here. -/
def Invocation.outcome (source : Option String → Except SourceError String) :
    Invocation → Outcome
  | run json request => request.answer json source
  | version => .success versionLine
  | help => .success ""
  | usage => .usage

end XmlRpc.Command
