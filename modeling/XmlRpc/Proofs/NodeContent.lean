/-
  XmlRpc/Proofs/NodeContent.lean
  ==============================
  **The written form of a node, as content of a document.**

  What `Node.toWire` writes is the text of a piece (`written_piece`), so the
  reader of documents gives back its element, and the limit of that reader is a
  limit on the height of the node (`depth_piece`).
-/
import XmlRpc.Node.Wire
import XmlRpc.Proofs.Content
import XmlRpc.Proofs.Subnodes

namespace XmlRpc

open Markup (Element Piece IsTagName)
open Markup.Piece (contentAll elementsAll writtenAll depthAll AllWellFormed writtenAll_singleton
  written_element written_text written_around depth_around depth_text wellFormed_text
  allWellFormed_singleton wellFormed_element)

/-! ### The tags of the format -/

/-- The tags that the format itself uses. -/
def vocabulary : List String :=
  ["string", "i4", "double", "boolean", "base64", "array", "data", "value", "struct", "member",
   "name", "params", "param", "methodCall", "methodName", "methodResponse", "fault"]

theorem plain_of_vocabulary : ∀ name ∈ vocabulary, ∀ c ∈ name.toList, c ∉ Markup.markupChars := by
  simp [vocabulary, Markup.markupChars]

theorem isTagName_of_vocabulary (name : String) (h : name ∈ vocabulary) : IsTagName name :=
  Markup.isTagName_of_plain (plain_of_vocabulary name h)

theorem wellFormed_around (name : String) (hname : name ∈ vocabulary) {pieces : List Piece}
    (h : AllWellFormed pieces) : (Piece.element name [] pieces).WellFormed :=
  wellFormed_element (isTagName_of_vocabulary name hname) h

namespace Node

/-! ### Pieces -/

mutual

/-- What stands between the tags of a node. -/
def parts : Node → List Piece
  | scalar s => [.text s.raw]
  | array items => [.element "data" [] (arrayParts items)]
  | struct members => memberParts members
  | params items => paramParts items

def arrayParts : List Node → List Piece
  | [] => []
  | item :: rest =>
    .element "value" [] [.element item.typeName [] (parts item)] :: .text "\n" :: arrayParts rest

def memberParts : List (String × Node) → List Piece
  | [] => []
  | (name, child) :: rest =>
    .element "member" []
      [.element "name" [] [.text name],
       .element "value" [] [.element child.typeName [] (parts child)]] :: memberParts rest

def paramParts : List Node → List Piece
  | [] => []
  | item :: rest =>
    .element "param" [] [.element "value" [] [.element item.typeName [] (parts item)]]
      :: .text "\n" :: paramParts rest

end

/-- The element that the written form of a node is read as. -/
def toElement (n : Node) : Element :=
  ⟨n.typeName, contentAll n.parts, elementsAll n.parts⟩

open Markup (tagged escape)

/-- The line feed between entries is written as it is. -/
theorem escapeChars_lineFeed : Markup.escapeChars "\n" = "\n".toList := by decide

mutual

/-- **The text of the piece is the written form of the node.** -/
theorem written_piece (n : Node) :
    (Piece.element n.typeName [] n.parts).written = n.toWire.toList := by
  cases n with
  | scalar s =>
    rw [toWire, parts]
    exact written_around s.tag (written_text s.raw)
  | array items =>
    have hdata := written_element "data" _ _ (written_arrayParts items)
    rw [toWire, parts]
    exact written_around "array" hdata
  | struct members =>
    rw [toWire, parts]
    exact written_element "struct" _ _ (written_memberParts members)
  | params items =>
    rw [toWire, parts]
    exact written_element "params" _ _ (written_paramParts items)

theorem written_arrayParts (items : List Node) :
    writtenAll (arrayParts items) = (arrayToWire items).toList := by
  cases items with
  | nil => rfl
  | cons item rest =>
    rw [arrayParts, writtenAll, writtenAll, written_around "value" (written_piece item),
      Piece.written, escapeChars_lineFeed, written_arrayParts rest, arrayToWire,
      String.toList_append, String.toList_append, List.append_assoc]

theorem written_memberParts (members : List (String × Node)) :
    writtenAll (memberParts members) = (membersToWire members).toList := by
  cases members with
  | nil => rfl
  | cons entry rest =>
    obtain ⟨name, child⟩ := entry
    have hmember : writtenAll [.element "name" [] [.text name],
        .element "value" [] [.element child.typeName [] child.parts]] =
          (tagged "name" (escape name) ++ tagged "value" child.toWire).toList := by
      rw [writtenAll, writtenAll_singleton, written_around "name" (written_text name),
        written_around "value" (written_piece child), String.toList_append]
    rw [memberParts, writtenAll, written_element "member" _ _ hmember, written_memberParts rest,
      membersToWire, String.toList_append]

theorem written_paramParts (items : List Node) :
    writtenAll (paramParts items) = (paramsToWire items).toList := by
  cases items with
  | nil => rfl
  | cons item rest =>
    have hparam := written_around "param" (written_around "value" (written_piece item))
    rw [paramParts, writtenAll, writtenAll, hparam, Piece.written, escapeChars_lineFeed,
      written_paramParts rest, paramsToWire, String.toList_append, String.toList_append,
      List.append_assoc]

end

/-! ### Depth -/

mutual

/-- **The reader's limit on depth is a limit on height.** -/
theorem depth_piece (n : Node) : (Piece.element n.typeName [] n.parts).depth = n.height := by
  cases n with
  | scalar s => rw [parts, depth_around, depth_text, height]
  | array items =>
    rw [parts, depth_around, Piece.depth, depth_arrayParts items, height]
    split <;> omega
  | struct members =>
    rw [parts, Piece.depth, depth_memberParts members, height]
    split <;> omega
  | params items =>
    rw [parts, Piece.depth, depth_paramParts items, height]
    split <;> omega

theorem depth_arrayParts (items : List Node) :
    depthAll (arrayParts items) = if items.isEmpty then 0 else 1 + itemsHeight items := by
  cases items with
  | nil => rfl
  | cons item rest =>
    have hrest := depth_arrayParts rest
    rw [arrayParts, depthAll, depthAll, depth_around, depth_piece item, depth_text, hrest,
      itemsHeight]
    cases rest with
    | nil =>
      simp only [List.isEmpty_nil, List.isEmpty_cons, itemsHeight, Bool.false_eq_true, if_true,
        if_false]
      omega
    | cons next rest =>
      simp only [List.isEmpty_cons, Bool.false_eq_true, if_false]
      omega

theorem depth_memberParts (members : List (String × Node)) :
    depthAll (memberParts members) = if members.isEmpty then 0 else 2 + membersHeight members := by
  cases members with
  | nil => rfl
  | cons entry rest =>
    obtain ⟨name, child⟩ := entry
    have hrest := depth_memberParts rest
    have hpos := height_pos child
    rw [memberParts, depthAll, Piece.depth, depthAll, depthAll, depthAll, depth_around, depth_text,
      depth_around, depth_piece child, hrest, membersHeight]
    cases rest with
    | nil =>
      simp only [List.isEmpty_nil, List.isEmpty_cons, membersHeight, Bool.false_eq_true, if_true,
        if_false]
      omega
    | cons next rest =>
      simp only [List.isEmpty_cons, Bool.false_eq_true, if_false]
      omega

theorem depth_paramParts (items : List Node) :
    depthAll (paramParts items) = if items.isEmpty then 0 else 2 + itemsHeight items := by
  cases items with
  | nil => rfl
  | cons item rest =>
    have hrest := depth_paramParts rest
    rw [paramParts, depthAll, depthAll, depth_around, depth_around, depth_piece item, depth_text,
      hrest, itemsHeight]
    cases rest with
    | nil =>
      simp only [List.isEmpty_nil, List.isEmpty_cons, itemsHeight, Bool.false_eq_true, if_true,
        if_false]
      omega
    | cons next rest =>
      simp only [List.isEmpty_cons, Bool.false_eq_true, if_false]
      omega

end

/-! ### Names in a piece -/

section Names

variable {P : String → Prop} (hvocabulary : ∀ name ∈ vocabulary, P name)

include hvocabulary

theorem bare_around (name : String) (hname : name ∈ vocabulary) {pieces : List Piece}
    (h : Piece.AllBare P pieces) : (Piece.element name [] pieces).Bare P :=
  Piece.bare_element (hvocabulary name hname) h

theorem name_tag {s : Scalar} (h : (scalar s).Tagged P) : P s.tag := by
  obtain ⟨kind, raw⟩ := s
  cases kind with
  | unregistered tag => exact h tag rfl
  | string => exact hvocabulary "string" (by simp [vocabulary])
  | integer => exact hvocabulary "i4" (by simp [vocabulary])
  | double => exact hvocabulary "double" (by simp [vocabulary])
  | boolean => exact hvocabulary "boolean" (by simp [vocabulary])
  | base64 => exact hvocabulary "base64" (by simp [vocabulary])

/-- The `value` around an item, a member or a parameter. -/
theorem bare_value {n : Node} (h : (Piece.element n.typeName [] n.parts).Bare P) :
    (Piece.element "value" [] [.element n.typeName [] n.parts]).Bare P :=
  bare_around hvocabulary _ (by simp [vocabulary]) (Piece.allBare_singleton h)

mutual

/-- **The names in the piece of a node are those of the format and its own tags.** -/
theorem bare_piece (n : Node) (h : n.Everywhere (Tagged P)) :
    (Piece.element n.typeName [] n.parts).Bare P := by
  cases n with
  | scalar s =>
    rw [Everywhere] at h
    rw [parts]
    exact Piece.bare_element (name_tag hvocabulary h)
      (Piece.allBare_singleton (Piece.bare_text s.raw))
  | array items =>
    rw [Everywhere] at h
    rw [parts]
    have hdata := bare_around hvocabulary "data" (by simp [vocabulary])
      (allBare_arrayParts items h.2)
    exact bare_around hvocabulary "array" (by simp [vocabulary]) (Piece.allBare_singleton hdata)
  | struct members =>
    rw [Everywhere] at h
    rw [parts]
    exact bare_around hvocabulary "struct" (by simp [vocabulary])
      (allBare_memberParts members h.2)
  | params items =>
    rw [Everywhere] at h
    rw [parts]
    exact bare_around hvocabulary "params" (by simp [vocabulary]) (allBare_paramParts items h.2)

theorem allBare_arrayParts (items : List Node) (h : EveryItem (Tagged P) items) :
    Piece.AllBare P (arrayParts items) := by
  cases items with
  | nil => trivial
  | cons item rest =>
    rw [EveryItem] at h
    rw [arrayParts, Piece.AllBare, Piece.AllBare]
    exact ⟨bare_value hvocabulary (bare_piece item h.1), Piece.bare_text _,
      allBare_arrayParts rest h.2⟩

theorem allBare_memberParts (members : List (String × Node)) (h : EveryMember (Tagged P) members) :
    Piece.AllBare P (memberParts members) := by
  cases members with
  | nil => trivial
  | cons entry rest =>
    obtain ⟨name, child⟩ := entry
    rw [EveryMember] at h
    have hname := bare_around hvocabulary "name" (by simp [vocabulary])
      (Piece.allBare_singleton (Piece.bare_text name))
    have hvalue := bare_value hvocabulary (bare_piece child h.1)
    rw [memberParts, Piece.AllBare]
    refine ⟨bare_around hvocabulary _ (by simp [vocabulary]) ?_, allBare_memberParts rest h.2⟩
    rw [Piece.AllBare]
    exact ⟨hname, Piece.allBare_singleton hvalue⟩

theorem allBare_paramParts (items : List Node) (h : EveryItem (Tagged P) items) :
    Piece.AllBare P (paramParts items) := by
  cases items with
  | nil => trivial
  | cons item rest =>
    rw [EveryItem] at h
    have hvalue := bare_value hvocabulary (bare_piece item h.1)
    rw [paramParts, Piece.AllBare, Piece.AllBare]
    exact ⟨bare_around hvocabulary _ (by simp [vocabulary]) (Piece.allBare_singleton hvalue),
      Piece.bare_text _, allBare_paramParts rest h.2⟩

end

end Names

/-- The piece of a node whose tags are names is well formed. -/
theorem wellFormed_piece (n : Node) (h : n.Everywhere (Tagged IsTagName)) :
    (Piece.element n.typeName [] n.parts).WellFormed :=
  Piece.wellFormed_of_bare (fun _ hname => hname) _ (bare_piece isTagName_of_vocabulary n h)

end Node

end XmlRpc
