/-
  XmlRpc/Source/Files.lean
  ========================
  **Files in folders, and how a path leads to one.**

  A path is a list of names between slashes and is followed from left to right:
  from the root if it begins with a slash, else from the working folder. A name is
  looked up in a folder only, so a path that goes on after a file fails there,
  also where nothing but a slash follows. An empty name and `.` stay where they
  are, and `..` goes to the folder above, which for the root is the root itself.

  The first name that cannot be followed decides what goes wrong. Lengths are
  counted in bytes of UTF-8.
-/
import XmlRpc.Source

namespace XmlRpc.Source

/-! ### Folders -/

/-- A file, or a folder of entries with names. -/
inductive Entry where
  | file (bytes : ByteArray)
  | folder (entries : List (String × Entry))

namespace Entry

/-- The folder that holds nothing. -/
def empty : Entry := .folder []

/-- The named entries of a folder; a file has none. -/
def entries : Entry → List (String × Entry)
  | file _ => []
  | folder entries => entries

/-- Puts a file where the names lead, with the folders on the way to it. -/
def put (bytes : ByteArray) : List String → Entry → Entry
  | [], _ => .file bytes
  | name :: names, entry =>
    let old := (entry.entries.lookup name).getD empty
    .folder ((name, put bytes names old) :: entry.entries.filter fun other => other.1 != name)

end Entry

/-! ### Paths -/

/-- The longest name that an entry may have. -/
def longestName : Nat := 255

/-- The longest path that may be asked for. -/
def longestPath : Nat := 4095

/-- What stands before, between and after the slashes of a path. -/
def pieces : List Char → List (List Char)
  | [] => [[]]
  | c :: rest =>
    if c = '/' then [] :: pieces rest
    else
      match pieces rest with
      | [] => [[c]]
      | piece :: others => (c :: piece) :: others

/-- The names in a path, the empty ones included. -/
def names (path : String) : List String :=
  (pieces path.toList).map String.ofList

/-- Follows names from `here`, whose folders are `above` it, the nearest first. -/
def follow (above : List Entry) (here : Entry) : List String → Except SourceError Entry
  | [] => .ok here
  | name :: rest =>
    match here with
    | .file _ => .error .notDirectory
    | .folder entries =>
      if name = "" ∨ name = "." then follow above here rest
      else if name = ".." then
        match above with
        | [] => follow [] here rest
        | parent :: others => follow others parent rest
      else if longestName < name.utf8ByteSize then .error .nameTooLong
      else
        match entries.lookup name with
        | some entry => follow (here :: above) entry rest
        | none => .error .missing

/-- The files that can be named, and the folder that a path starts from. -/
structure Files where
  root : Entry
  /-- The names that lead from the root to the working folder. -/
  workingFolder : List String

namespace Files

/-- Puts a file at a path, with the folders on the way to it. -/
def put (files : Files) (path : String) (bytes : ByteArray) : Files :=
  { files with root := files.root.put bytes (files.workingFolder ++ names path) }

/-- What a path leads to. -/
def entry (files : Files) (path : String) : Except SourceError Entry :=
  if path = "" then .error .missing
  else if longestPath < path.utf8ByteSize then .error .nameTooLong
  else if path.toList.head? = some '/' then follow [] files.root (names path)
  else follow [] files.root (files.workingFolder ++ names path)

/-- The text of the file that a path leads to. -/
def read (files : Files) (path : String) : Except SourceError String :=
  match files.entry path with
  | .error error => .error error
  | .ok (.folder _) => .error .directory
  | .ok (.file bytes) => decode bytes

end Files

end XmlRpc.Source
