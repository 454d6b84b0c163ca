/-
  XmlRpc/Proofs/Roles.lean
  ========================
  **What each element of a reply is read as.**

  A decoder is seven functions that call one another, each with its own way through
  a list of children.  The format behind it is simpler to say: an element is read in
  a *role*, and its role, its name and the names of its children decide which of the
  children are read, and in which roles (`Role.below`).  All else is local to one
  element: what may be wrong with it (`Role.defect?`), and what it makes of the parts
  that were read in it (`Role.assemble`).

  `read` is the reader that follows these three tables.  It is the decoder
  (`read_value`, `read_typed`, `read_response`, `ofElement_eq_ofParts`), by induction
  on the element tree with one case for each function of the decoder.  What is proved
  of `read` needs only two cases: an element, and a list of children with their roles.
-/
import XmlRpc.Reply.Fault

namespace XmlRpc

open Markup (Element)

namespace Reply

/-- What an element is read as. -/
inductive Role where
  /-- The element around a whole reply. -/
  | response
  | parameters
  | parameter
  | fault
  /-- What holds a typed element or the text of a string. -/
  | value
  /-- What says by its name which kind of node it is. -/
  | typed
  | data
  /-- An item of a `data` or of a parameter list. -/
  | entry
  | member
deriving DecidableEq, Repr

namespace Role

/-! ### Which children are read -/

/-- Only the first child with a name is read. -/
def first (name : String) (role : Role) : List String → List (Option Role)
  | [] => []
  | own :: rest => if own = name then [some role] else none :: first name role rest

/-- All children are read in one role. -/
def each (role : Role) (names : List String) : List (Option Role) :=
  names.map fun _ => some role

/-- The roles of the children of an element, in order, by its name and theirs.  A child that has
    no role, or that stands behind the last role, is not read. -/
def below (role : Role) (name : String) (names : List String) : List (Option Role) :=
  match role with
  | response => first "params" parameters names
  | parameters => first "param" parameter names
  | parameter => first "value" value names
  | fault => first "value" value names
  | member => first "value" value names
  | value => [some typed]
  | entry => if names.head? = some "value" then [some value] else [some typed]
  | data => each entry names
  | typed =>
    if name = "array" then first "data" data names
    else if name = "params" then each entry names
    else if name = "struct" then each member names
    else []

/-! ### What may be wrong with an element -/

/-- A child that has to be there. -/
def requires (name : String) (reason : Malformed) (e : Element) : Option Malformed :=
  if (e.child? name).isSome then none else some reason

/-- Something has to be there, be it a child or a text. -/
def requiresContent (reason : Malformed) (e : Element) : Option Malformed :=
  if e.hasContent then none else some reason

/-- The text of the first `name` in an element, or nothing without one. -/
def nameText (e : Element) : String :=
  match e.child? "name" with
  | some name => name.text
  | none => ""

/-- What is wrong with an element itself, whatever may be wrong with what is read in it. -/
def defect? (role : Role) (e : Element) : Option Malformed :=
  match role with
  | response => requires "params" .missingParams e
  | parameters => requires "param" .missingParam e
  | parameter => requires "value" .missingValue e
  | fault => requires "value" .malformedFault e
  | member => requires "value" (.missingMemberValue (nameText e)) e
  | value => requiresContent .emptyValue e
  | entry => requiresContent .emptyArrayItem e
  | data => none
  | typed => if e.name = "array" then requires "data" .missingData e else none

/-! ### What an element makes of its parts -/

/-- The node of a typed element in which these parts were read. -/
def nodeOf (e : Element) (parts : List (String × Node)) : Node :=
  if e.name = "array" then .array (parts.map Prod.snd)
  else if e.name = "params" then .params (parts.map Prod.snd)
  else if e.name = "struct" then .struct (Members.ofList parts)
  else .scalar (Scalar.ofWireTag e.name e.text)

/-- What an element stands for: nodes, each with a name that counts in a struct only. -/
def assemble (role : Role) (e : Element) (parts : List (String × Node)) : List (String × Node) :=
  match role with
  | value | entry => if e.children.isEmpty then [("", .string e.text)] else parts
  | typed => [("", nodeOf e parts)]
  | member => parts.map fun part => (nameText e, part.2)
  | _ => parts

end Role

/-! ### Reading by roles -/

/-- The roles of the children of an element. -/
def Role.belowOf (role : Role) (e : Element) : List (Option Role) :=
  role.below e.name (e.children.map Element.name)

mutual

/-- What an element stands for in a role, or the first reason against it. -/
def read (role : Role) : Element → Except Malformed (List (String × Node))
  | ⟨name, text, children⟩ =>
    match role.defect? ⟨name, text, children⟩ with
    | some reason => .error reason
    | none =>
      (readAll (role.belowOf ⟨name, text, children⟩) children).map
        (role.assemble ⟨name, text, children⟩)

/-- What the children that have a role stand for, one after the other. -/
def readAll : List (Option Role) → List Element → Except Malformed (List (String × Node))
  | _, [] => .ok []
  | [], _ :: _ => .ok []
  | none :: roles, _ :: rest => readAll roles rest
  | some role :: roles, child :: rest => do
    let parts ← read role child
    let others ← readAll roles rest
    return parts ++ others

end

open Role (first each requires nameText)

/-- A member goes by the same name in the decoder. -/
theorem memberName_children (e : Element) : memberName e.children = nameText e := by
  change ((e.child? "name").map Element.text).getD "" = nameText e
  rw [nameText]
  rcases e.child? "name" with _ | name <;> rfl

theorem readAll_nil (roles : List (Option Role)) : readAll roles [] = .ok [] := by
  cases roles <;> rfl

theorem readAll_unread (children : List Element) : readAll [] children = .ok [] := by
  cases children <;> rfl

theorem readAll_singleton (role : Role) (child : Element) (rest : List Element) :
    readAll [some role] (child :: rest) = read role child := by
  rw [readAll, readAll_unread]
  rcases read role child with reason | parts
  · rfl
  · exact congrArg Except.ok (List.append_nil parts)

theorem readAll_first (name : String) (role : Role) (children : List Element) :
    readAll (first name role (children.map Element.name)) children =
      match children.find? fun child => child.name = name with
      | some child => read role child
      | none => .ok [] := by
  induction children with
  | nil => rfl
  | cons child rest ih =>
    rw [List.map_cons, first, List.find?_cons]
    by_cases hname : child.name = name
    · simp [hname, readAll_singleton]
    · simp [hname, readAll, ih]

/-- An element that needs a child stands for nothing without it. -/
theorem read_of_requires {role : Role} {e : Element} {name : String} {reason : Malformed}
    (h : role.defect? e = requires name reason e) :
    read role e = (if (e.child? name).isSome then readAll (role.belowOf e) e.children
      else .error reason).map (role.assemble e) := by
  cases e with
  | mk own text children =>
    rw [read, h, requires]
    by_cases hchild : (Element.child? name ⟨own, text, children⟩).isSome
    · rw [if_pos hchild, if_pos hchild]
    · rw [if_neg hchild, if_neg hchild]
      rfl

/-- An element that stands for what its first child of a name stands for. -/
theorem read_of_first (name : String) (next : Role) {role : Role} {e : Element}
    {reason : Malformed} (hdefect : role.defect? e = requires name reason e)
    (hbelow : role.belowOf e = first name next (e.children.map Element.name))
    (hassemble : role.assemble e = id) :
    read role e = match e.child? name with
      | some child => read next child
      | none => .error reason := by
  have hfirst : readAll (first name next (e.children.map Element.name)) e.children =
      match e.child? name with
      | some child => read next child
      | none => .ok [] :=
    readAll_first name next e.children
  rw [read_of_requires hdefect, hbelow, hfirst, hassemble]
  rcases e.child? name with _ | child
  · rfl
  · change (read next child).map id = read next child
    rcases read next child with reason | parts <;> rfl

/-! ### The decoder reads by roles -/

/-- A node on its own has no name. -/
def unnamed (n : Node) : List (String × Node) :=
  [("", n)]

def unnamedAll (items : List Node) : List (String × Node) :=
  items.map fun item => ("", item)

theorem map_snd_unnamedAll (items : List Node) : (unnamedAll items).map Prod.snd = items := by
  simp [unnamedAll, Function.comp_def]

mutual

theorem read_value (e : Element) : read .value e = (decodeValue e).map unnamed := by
  cases e with
  | mk name text children =>
    cases children with
    | nil =>
      rw [decodeValue, read]
      by_cases htext : text = ""
      · subst htext
        rfl
      · have hdefect : Role.value.defect? ⟨name, text, []⟩ = none := by
          simp [Role.defect?, Role.requiresContent, Element.hasContent, htext]
        rw [if_neg htext, hdefect]
        rfl
    | cons typed rest =>
      rw [decodeValue, ← read_typed typed, ← readAll_singleton .typed typed rest, read]
      exact congrFun Except.map_id _

theorem read_typed (e : Element) : read .typed e = (decodeTyped e).map unnamed := by
  cases e with
  | mk name text children =>
    rw [decodeTyped]
    by_cases harray : name = "array"
    · subst harray
      have hdefect : Role.typed.defect? ⟨"array", text, children⟩ =
        requires "data" .missingData ⟨"array", text, children⟩ := rfl
      rw [read_of_requires hdefect, if_pos rfl]
      change Except.map (Role.assemble .typed ⟨"array", text, children⟩)
        (if (children.find? fun part => part.name = "data").isSome then
          readAll (first "data" .data (children.map Element.name)) children
        else .error .missingData) = _
      rw [readAll_data children]
      rcases decodeData children with reason | items
      · rfl
      · exact congrArg (fun items => Except.ok [("", Node.array items)]) (map_snd_unnamedAll items)
    · by_cases hparams : name = "params"
      · subst hparams
        rw [if_neg harray, if_pos rfl, read]
        change (readAll (each .entry (children.map Element.name)) children).map _ = _
        rw [readAll_entries children]
        rcases decodeEntries children with reason | items
        · rfl
        · exact congrArg (fun items => Except.ok [("", Node.params items)])
            (map_snd_unnamedAll items)
      · by_cases hstruct : name = "struct"
        · subst hstruct
          rw [if_neg harray, if_neg hparams, if_pos rfl, read]
          change (readAll (each .member (children.map Element.name)) children).map _ = _
          rw [readAll_members children]
          rcases decodeMembers children with reason | members <;> rfl
        · have hdefect : Role.typed.defect? ⟨name, text, children⟩ = none := if_neg harray
          have hbelow : Role.typed.belowOf ⟨name, text, children⟩ = [] := by
            simp [Role.belowOf, Role.below, harray, hparams, hstruct]
          have hnode : Role.nodeOf ⟨name, text, children⟩ [] =
              .scalar (Scalar.ofWireTag name text) := by
            simp [Role.nodeOf, harray, hparams, hstruct]
          rw [if_neg harray, if_neg hparams, if_neg hstruct, read, hdefect, hbelow, readAll_unread,
            ← hnode]
          rfl

/-- The entries of the first `data` are read. -/
theorem readAll_data (parts : List Element) :
    (if (parts.find? fun part => part.name = "data").isSome then
        readAll (first "data" .data (parts.map Element.name)) parts
      else .error .missingData) = (decodeData parts).map unnamedAll := by
  cases parts with
  | nil => rfl
  | cons part rest =>
    obtain ⟨name, text, entries⟩ := part
    rw [decodeData, List.map_cons, first, List.find?_cons]
    by_cases hname : name = "data"
    · subst hname
      have hdata : read .data ⟨"data", text, entries⟩ = (decodeEntries entries).map unnamedAll := by
        rw [read, ← readAll_entries entries]
        exact congrFun Except.map_id _
      simp [readAll_singleton, hdata]
    · simp [hname, readAll, ← readAll_data rest]

theorem readAll_entries (entries : List Element) :
    readAll (each .entry (entries.map Element.name)) entries =
      (decodeEntries entries).map unnamedAll := by
  cases entries with
  | nil => rfl
  | cons entry rest =>
    rw [decodeEntries, List.map_cons, each, List.map_cons, readAll, read_entry entry, ← each,
      readAll_entries rest]
    rcases decodeEntry entry with reason | item
    · rfl
    · rcases decodeEntries rest with reason | items <;> rfl

theorem read_entry (e : Element) : read .entry e = (decodeEntry e).map unnamed := by
  cases e with
  | mk name text children =>
    cases children with
    | nil =>
      rw [decodeEntry, read]
      by_cases htext : text = ""
      · subst htext
        rfl
      · have hdefect : Role.entry.defect? ⟨name, text, []⟩ = none := by
          simp [Role.defect?, Role.requiresContent, Element.hasContent, htext]
        rw [if_neg htext, hdefect]
        rfl
    | cons inner rest =>
      rw [decodeEntry, read]
      by_cases hinner : inner.name = "value"
      · have hbelow : Role.entry.belowOf ⟨name, text, inner :: rest⟩ = [some .value] :=
          if_pos (congrArg some hinner)
        rw [if_pos hinner, ← read_value inner, ← readAll_singleton .value inner rest, ← hbelow]
        exact congrFun Except.map_id _
      · have hbelow : Role.entry.belowOf ⟨name, text, inner :: rest⟩ = [some .typed] :=
          if_neg fun heq => hinner (Option.some.inj heq)
        rw [if_neg hinner, ← read_typed inner, ← readAll_singleton .typed inner rest, ← hbelow]
        exact congrFun Except.map_id _

theorem readAll_members (members : List Element) :
    readAll (each .member (members.map Element.name)) members = decodeMembers members := by
  cases members with
  | nil => rfl
  | cons member rest =>
    obtain ⟨name, text, parts⟩ := member
    have hdefect : Role.member.defect? ⟨name, text, parts⟩ =
      requires "value" (.missingMemberValue (nameText ⟨name, text, parts⟩))
        ⟨name, text, parts⟩ := rfl
    rw [decodeMembers, List.map_cons, each, List.map_cons, readAll, read_of_requires hdefect,
      memberName_children ⟨name, text, parts⟩]
    obtain ⟨own, hown⟩ : ∃ own, nameText ⟨name, text, parts⟩ = own := ⟨_, rfl⟩
    change Except.map (Role.assemble .member ⟨name, text, parts⟩)
        (if (parts.find? fun part => part.name = "value").isSome then
          readAll (first "value" .value (parts.map Element.name)) parts
        else .error (.missingMemberValue (nameText ⟨name, text, parts⟩))) >>= _ = _
    rw [hown, readAll_memberValue own parts, ← each, readAll_members rest]
    rcases decodeMemberValue own parts with reason | node
    · rfl
    · rcases decodeMembers rest with reason | members
      · rfl
      · exact congrArg (fun own => Except.ok ((own, node) :: members)) hown

/-- The first `value` is read. -/
theorem readAll_memberValue (name : String) (parts : List Element) :
    (if (parts.find? fun part => part.name = "value").isSome then
        readAll (first "value" .value (parts.map Element.name)) parts
      else .error (.missingMemberValue name)) = (decodeMemberValue name parts).map unnamed := by
  cases parts with
  | nil => rfl
  | cons part rest =>
    rw [decodeMemberValue, List.map_cons, first, List.find?_cons]
    by_cases hname : part.name = "value"
    · simp [hname, readAll_singleton, read_value part]
    · simp [hname, readAll, ← readAll_memberValue name rest]

end

/-! ### Whole documents -/

/-- What the first element with a name stands for in a role. -/
def readFirst (name : String) (role : Role) (document : Element) :
    Option (Except Malformed (List (String × Node))) :=
  (document.find? name).map (read role)

/-- **A reply is what its first `methodResponse` stands for.** -/
theorem decodeDocument_eq_read (document : Element) :
    (decodeDocument document).map unnamed =
      (readFirst "methodResponse" .response document).getD (.error .missingMethodResponse) := by
  rw [decodeDocument, readFirst]
  rcases document.find? "methodResponse" with _ | response
  · rfl
  · dsimp only [Option.map_some, Option.getD_some]
    rw [read_of_first "params" .parameters rfl rfl rfl]
    rcases response.child? "params" with _ | params
    · rfl
    · dsimp only
      rw [read_of_first "param" .parameter rfl rfl rfl]
      rcases params.child? "param" with _ | param
      · rfl
      · dsimp only
        rw [read_of_first "value" .value rfl rfl rfl]
        rcases param.child? "value" with _ | value
        · rfl
        · exact (read_value value).symm

end Reply

namespace Fault

/-- The fault for what an element called `fault` stands for. -/
def ofParts : Except Malformed (List (String × Node)) → Except Malformed Fault
  | .ok ((_, node) :: _) =>
    match ofNode? node with
    | none => .error .malformedFault
    | some fault => .ok fault
  | _ => .error .malformedFault

theorem ofElement_eq_ofParts (e : Element) : ofElement e = ofParts (Reply.read .fault e) := by
  rw [ofElement, Reply.read_of_first "value" .value rfl rfl rfl]
  rcases e.child? "value" with _ | value
  · rfl
  · dsimp only
    rw [Reply.read_value value]
    rcases Reply.decodeValue value with reason | node <;> rfl

/-- **A document carries the fault that its first `fault` stands for.** -/
theorem find?_eq_read (document : Element) :
    find? document =
      match Reply.readFirst "fault" .fault document with
      | none => .ok none
      | some outcome => (ofParts outcome).map some := by
  rw [find?, Reply.readFirst]
  rcases document.find? "fault" with _ | fault
  · rfl
  · exact congrArg (Except.map some) (ofElement_eq_ofParts fault)

end Fault

end XmlRpc
