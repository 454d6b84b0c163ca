/-
  XmlRpc/Proofs/Layout.lean
  =========================
  **Text that stands between elements never matters.**

  The text of an element counts where it is what the element holds: in a scalar, in a
  name, and in a `value` or an entry that has no child.  Everywhere else that a decoder
  looks, text is layout (`Role.Layout`).  Two trees are `Relaid` if they differ in
  layout only, at any depth; what is not read is the same in both.  Such trees are read
  alike (`read_relaid`), so that a value, a reply and a fault are decoded alike however
  they are laid out, and refused for the same reason (`decode_relaid`).

  The induction is on the two trees together.  What carries it is that the names of the
  children agree: names alone decide which children are read, and in which roles.
-/
import XmlRpc.Proofs.Roles

namespace XmlRpc.Reply

open Markup (Element)

/-! ### Trees that differ in layout -/

/-- The text of an element with this name and these children is not read in the role. -/
def Role.Layout (role : Role) (name : String) (children : List Element) : Prop :=
  match role with
  | value | entry => children ≠ []
  | typed => name ∈ ["array", "params", "struct"]
  | _ => True

mutual

/-- Elements that are read in a role and differ in layout only. -/
inductive Relaid : Role → Element → Element → Prop where
  | element {role : Role} {name text text' : String} {children children' : List Element}
      (htext : text' = text ∨ role.Layout name children)
      (h : RelaidAll (role.below name (children.map Element.name)) children children') :
      Relaid role ⟨name, text, children⟩ ⟨name, text', children'⟩

/-- Children with their roles that differ in layout only; those without a role do not differ. -/
inductive RelaidAll : List (Option Role) → List Element → List Element → Prop where
  | nil {roles : List (Option Role)} : RelaidAll roles [] []
  | unread {children : List Element} : RelaidAll [] children children
  | kept {roles : List (Option Role)} {child : Element} {rest rest' : List Element}
      (h : RelaidAll roles rest rest') : RelaidAll (none :: roles) (child :: rest) (child :: rest')
  | read {role : Role} {roles : List (Option Role)} {child child' : Element}
      {rest rest' : List Element} (hchild : Relaid role child child')
      (h : RelaidAll roles rest rest') :
      RelaidAll (some role :: roles) (child :: rest) (child' :: rest')

end

/-! ### What layout leaves as it is -/

theorem Relaid.name_eq {role : Role} {e e' : Element} (h : Relaid role e e') :
    e'.name = e.name := by
  cases h
  rfl

theorem RelaidAll.names_eq {roles : List (Option Role)} {children children' : List Element} :
    RelaidAll roles children children' → children'.map Element.name = children.map Element.name
  | .nil => rfl
  | .unread => rfl
  | .kept h => by rw [List.map_cons, List.map_cons, h.names_eq]
  | .read hchild h => by rw [List.map_cons, List.map_cons, hchild.name_eq, h.names_eq]

/-- The `name` of a member has no role, so its text does not differ. -/
theorem RelaidAll.memberName_eq {parts parts' : List Element}
    (h : RelaidAll (Role.first "value" .value (parts.map Element.name)) parts parts') :
    memberName parts' = memberName parts := by
  induction parts generalizing parts' with
  | nil => cases h <;> rfl
  | cons part rest ih =>
    rw [List.map_cons, Role.first] at h
    split at h
    · next hvalue =>
      cases h with
      | @read _ _ _ part' _ rest' hpart hrest =>
        have hother : ¬part.name = "name" := by
          rw [hvalue]
          decide
        have hother' : ¬part'.name = "name" := by
          rw [hpart.name_eq]
          exact hother
        rw [memberName_cons, memberName_cons, if_neg hother, if_neg hother']
        cases hrest <;> rfl
    · cases h with
      | kept hrest => rw [memberName_cons, memberName_cons, ih hrest]

/-- A child that has to be there is there or not by the names of the children alone. -/
theorem isSome_child? (name : String) (e : Element) :
    (e.child? name).isSome = decide (name ∈ e.children.map Element.name) := by
  rw [Element.child?, Bool.eq_iff_iff, List.find?_isSome]
  simp

/-! ### One element -/

section Element

variable {role : Role} {name text text' : String} {children children' : List Element}
  (htext : text' = text ∨ role.Layout name children)
  (h : RelaidAll (role.below name (children.map Element.name)) children children')

include h in
theorem requires_relaid (required : String) (reason : Malformed) :
    Role.requires required reason ⟨name, text', children'⟩ =
      Role.requires required reason ⟨name, text, children⟩ := by
  rw [Role.requires, Role.requires, isSome_child?, isSome_child?]
  dsimp only
  rw [h.names_eq]

/-- Where no child is read, the text is the same. -/
theorem text_of_isEmpty (htext : text' = text ∨ children ≠ []) (hempty : children.isEmpty) :
    text' = text := by
  rcases htext with htext | hchildren
  · exact htext
  · exact absurd (List.isEmpty_iff.1 hempty) hchildren

include h in
theorem isEmpty_relaid : children'.isEmpty = children.isEmpty := by
  rw [← List.isEmpty_map (f := Element.name), h.names_eq, List.isEmpty_map]

theorem requiresContent_relaid (htext : text' = text ∨ children ≠ [])
    (hempty : children'.isEmpty = children.isEmpty) (reason : Malformed) :
    Role.requiresContent reason ⟨name, text', children'⟩ =
      Role.requiresContent reason ⟨name, text, children⟩ := by
  rw [Role.requiresContent, Role.requiresContent, Element.hasContent, Element.hasContent]
  dsimp only
  rw [hempty]
  cases hchildren : children.isEmpty with
  | true => rw [text_of_isEmpty htext hchildren]
  | false => rfl

theorem nameText_relaid
    (h : RelaidAll (Role.below .member name (children.map Element.name)) children children') :
    Role.nameText ⟨name, text', children'⟩ = Role.nameText ⟨name, text, children⟩ := by
  rw [← memberName_children, ← memberName_children]
  exact h.memberName_eq

include htext h in
theorem defect?_relaid :
    role.defect? ⟨name, text', children'⟩ = role.defect? ⟨name, text, children⟩ := by
  cases role with
  | value => exact requiresContent_relaid htext (isEmpty_relaid h) _
  | entry => exact requiresContent_relaid htext (isEmpty_relaid h) _
  | data => rfl
  | typed =>
    change (if name = "array" then _ else none) = if name = "array" then _ else none
    rw [requires_relaid h]
  | member =>
    change Role.requires _ (.missingMemberValue (Role.nameText ⟨name, text', children'⟩)) _ = _
    rw [nameText_relaid h]
    exact requires_relaid h _ _
  | _ => exact requires_relaid h _ _

theorem held_relaid (htext : text' = text ∨ children ≠ [])
    (hempty : children'.isEmpty = children.isEmpty) (parts : List (String × Node)) :
    (if children'.isEmpty then [("", .string text')] else parts) =
      if children.isEmpty then [("", .string text)] else parts := by
  rw [hempty]
  cases hchildren : children.isEmpty with
  | true => rw [text_of_isEmpty htext hchildren]
  | false => rfl

/-- A typed element whose text may differ is no scalar. -/
theorem nodeOf_relaid (htext : text' = text ∨ Role.typed.Layout name children)
    (parts : List (String × Node)) :
    Role.nodeOf ⟨name, text', children'⟩ parts = Role.nodeOf ⟨name, text, children⟩ parts := by
  rcases htext with rfl | hname
  · rfl
  · rw [Role.Layout] at hname
    simp only [List.mem_cons, List.not_mem_nil, or_false] at hname
    rcases hname with rfl | rfl | rfl <;> rfl

include htext h in
theorem assemble_relaid (parts : List (String × Node)) :
    role.assemble ⟨name, text', children'⟩ parts =
      role.assemble ⟨name, text, children⟩ parts := by
  cases role with
  | value => exact held_relaid htext (isEmpty_relaid h) parts
  | entry => exact held_relaid htext (isEmpty_relaid h) parts
  | typed => exact congrArg (fun n => [("", n)]) (nodeOf_relaid htext parts)
  | member =>
    change parts.map (fun part => (Role.nameText ⟨name, text', children'⟩, part.2)) = _
    rw [nameText_relaid h]
    rfl
  | _ => rfl

end Element

/-! ### The whole tree -/

mutual

/-- **What differs in layout only is read alike.** -/
theorem read_relaid {role : Role} {e e' : Element} :
    Relaid role e e' → read role e' = read role e
  | @Relaid.element role name text text' children children' htext h => by
    have hbelow : role.belowOf ⟨name, text', children'⟩ = role.belowOf ⟨name, text, children⟩ :=
      congrArg (role.below name) h.names_eq
    have hassemble := funext (assemble_relaid htext h)
    have hparts : readAll (role.belowOf ⟨name, text, children⟩) children' =
        readAll (role.belowOf ⟨name, text, children⟩) children :=
      readAll_relaid h
    rw [read, read, hbelow, defect?_relaid htext h, hassemble, hparts]

theorem readAll_relaid {roles : List (Option Role)} {children children' : List Element} :
    RelaidAll roles children children' → readAll roles children' = readAll roles children
  | .nil => rfl
  | .unread => rfl
  | .kept h => by rw [readAll, readAll, readAll_relaid h]
  | .read hchild h => by rw [readAll, readAll, read_relaid hchild, readAll_relaid h]

end

/-! ### Documents -/

mutual

/-- Documents that differ only in the first element with a name, and there in layout only. -/
inductive RelaidAt (target : String) (role : Role) : Element → Element → Prop where
  | here {e e' : Element} (hname : e.name = target) (h : Relaid role e e') :
      RelaidAt target role e e'
  | inside {name text : String} {children children' : List Element} (hname : name ≠ target)
      (h : RelaidAmong target role children children') :
      RelaidAt target role ⟨name, text, children⟩ ⟨name, text, children'⟩

/-- Trees in order that differ so: up to the one with the first such element they are the same. -/
inductive RelaidAmong (target : String) (role : Role) : List Element → List Element → Prop where
  | nil : RelaidAmong target role [] []
  | found {tree tree' : Element} {rest : List Element} (h : RelaidAt target role tree tree') :
      RelaidAmong target role (tree :: rest) (tree' :: rest)
  | later {tree : Element} {rest rest' : List Element} (hnone : tree.find? target = none)
      (h : RelaidAmong target role rest rest') :
      RelaidAmong target role (tree :: rest) (tree :: rest')

end

theorem find?_of_name {target : String} {e : Element} (h : e.name = target) :
    e.find? target = some e := by
  cases e with
  | mk name text children => rw [Element.find?, if_pos h]

mutual

theorem readFirst_relaidAt {target : String} {role : Role} {d d' : Element} :
    RelaidAt target role d d' → readFirst target role d' = readFirst target role d
  | .here hname h => by
    have hname' := h.name_eq.trans hname
    rw [readFirst, readFirst, find?_of_name hname, find?_of_name hname', Option.map_some,
      Option.map_some, read_relaid h]
  | .inside hname h => by
    rw [readFirst, readFirst, Element.find?, Element.find?, if_neg hname, if_neg hname]
    exact readFirst_relaidAmong h

theorem readFirst_relaidAmong {target : String} {role : Role} {trees trees' : List Element} :
    RelaidAmong target role trees trees' →
      (Element.findIn? target trees').map (read role) =
        (Element.findIn? target trees).map (read role)
  | .nil => rfl
  | .found h => by
    have htree := readFirst_relaidAt h
    rw [readFirst, readFirst] at htree
    rw [Element.findIn?, Element.findIn?, Option.map_or, Option.map_or, htree]
  | .later _ h => by
    rw [Element.findIn?, Element.findIn?, Option.map_or, Option.map_or, readFirst_relaidAmong h]

end

/-! ### Decoding -/

theorem eq_of_unnamed {result result' : Except Malformed Node}
    (h : result'.map unnamed = result.map unnamed) : result' = result := by
  cases result <;> cases result' <;> simp_all [Except.map, unnamed]

/-- **Layout never matters.** -/
theorem decode_relaid :
    (∀ v v', Relaid .value v v' → decodeValue v' = decodeValue v) ∧
    (∀ d d', RelaidAt "methodResponse" .response d d' → decodeDocument d' = decodeDocument d) ∧
    (∀ d d', RelaidAt "fault" .fault d d' → Fault.find? d' = Fault.find? d) := by
  refine ⟨?_, ?_, ?_⟩
  · intro v v' h
    apply eq_of_unnamed
    rw [← read_value, ← read_value, read_relaid h]
  · intro d d' h
    apply eq_of_unnamed
    rw [decodeDocument_eq_read, decodeDocument_eq_read, readFirst_relaidAt h]
  · intro d d' h
    rw [Fault.find?_eq_read, Fault.find?_eq_read, readFirst_relaidAt h]

/-- An array of a number and a text, with a gap at every place that is layout. -/
def spacedArray (gap : String) : Element :=
  ⟨"value", gap, [⟨"array", gap, [⟨"data", gap,
    [⟨"value", gap, [⟨"i4", "1", []⟩]⟩, ⟨"value", " x ", []⟩]⟩]⟩]⟩

/-- A struct with this array in it, laid out with the same gap. -/
def spaced (gap : String) : Element :=
  ⟨"value", gap, [⟨"struct", gap, [⟨"member", gap, [⟨"name", " a ", []⟩, spacedArray gap]⟩]⟩]⟩

theorem relaid_spaced (gap gap' : String) : Relaid .value (spaced gap) (spaced gap') := by
  have hnumber : Relaid .typed ⟨"i4", "1", []⟩ ⟨"i4", "1", []⟩ := .element (.inl rfl) .nil
  have hitem : Relaid .entry ⟨"value", gap, [⟨"i4", "1", []⟩]⟩ ⟨"value", gap', [⟨"i4", "1", []⟩]⟩ :=
    .element (.inr (List.cons_ne_nil _ _)) (.read hnumber .nil)
  have htext : Relaid .entry ⟨"value", " x ", []⟩ ⟨"value", " x ", []⟩ := .element (.inl rfl) .nil
  have harray : Relaid .value (spacedArray gap) (spacedArray gap') := by
    refine .element (.inr (List.cons_ne_nil _ _)) (.read (.element (.inr ?_) (.read ?_ .nil)) .nil)
    · simp [Role.Layout]
    · exact .element (.inr trivial) (.read hitem (.read htext .nil))
  refine .element (.inr (List.cons_ne_nil _ _)) (.read (.element (.inr ?_) (.read ?_ .nil)) .nil)
  · simp [Role.Layout]
  · exact .element (.inr trivial) (.kept (.read harray .nil))

/-- The document of a reply with this value, beside text that no layout stands for. -/
def spacedReply (gap : String) : Element :=
  ⟨"r", "kept", [⟨"methodResponse", gap, [⟨"params", gap, [⟨"param", gap, [spaced gap]⟩]⟩]⟩]⟩

def spacedFault (gap : String) : Element :=
  ⟨"r", "kept", [⟨"fault", gap, [spaced gap]⟩]⟩

theorem decode_relaid_spaced :
    (Relaid .value (spaced "") (spaced "\n\t") ∧
      decodeValue (spaced "\n\t") = decodeValue (spaced "")) ∧
    decodeValue (spaced "") =
      .ok (.struct [(" a ", .array [.scalar ⟨.integer, "1"⟩, .string " x "])]) ∧
    (RelaidAt "methodResponse" .response (spacedReply "") (spacedReply "\n\t") ∧
      decodeDocument (spacedReply "\n\t") = decodeDocument (spacedReply "")) ∧
    (RelaidAt "fault" .fault (spacedFault "") (spacedFault "\n\t") ∧
      Fault.find? (spacedFault "\n\t") = Fault.find? (spacedFault "")) := by
  obtain ⟨hvalue, hdocument, hfault⟩ := decode_relaid
  have hspaced := relaid_spaced "" "\n\t"
  have hreply : RelaidAt "methodResponse" .response (spacedReply "") (spacedReply "\n\t") :=
    .inside (by decide) (.found (.here rfl (.element (.inr trivial) (.read (.element (.inr trivial)
      (.read (.element (.inr trivial) (.read hspaced .nil)) .nil)) .nil))))
  have hfaulty : RelaidAt "fault" .fault (spacedFault "") (spacedFault "\n\t") :=
    .inside (by decide) (.found (.here rfl (.element (.inr trivial) (.read hspaced .nil))))
  exact ⟨⟨hspaced, hvalue _ _ hspaced⟩, rfl, ⟨hreply, hdocument _ _ hreply⟩,
    ⟨hfaulty, hfault _ _ hfaulty⟩⟩

end XmlRpc.Reply
