/-
  XmlRpc/Proofs/RoundTrip.lean
  ============================
  **A node that is written and read again.**

  The element that the written form of an unambiguous node is read as stands for
  the node (`decodeTyped_toElement`).  Together with the reading of written documents
  this settles what becomes of a node in a reply: it comes back as it was, or the
  reply is refused for its depth, and which of the two happens depends on the
  height of the node alone (`decode_envelope`).
-/
import XmlRpc.Proofs.NodeContent
import XmlRpc.Reply

namespace XmlRpc

open Markup (Element Piece IsTagName tagged)
open Markup.Piece (contentAll elementsAll contentAll_text elementsAll_element elementsAll_text
  written_around allWellFormed_singleton depth_around)

/-! ### Tags -/

/-- The tags that a reader does not take for those of an unregistered scalar. -/
def reservedTags : List String :=
  ["string", "i4", "int", "integer", "double", "boolean", "base64", "array", "struct", "params"]

namespace ScalarKind

theorem ofTag?_eq_none {tag : String} (h : tag ∉ reservedTags) : ofTag? tag = none := by
  unfold ofTag?
  split <;> simp_all [reservedTags]

theorem ofWireTag_tag {kind : ScalarKind}
    (h : ∀ tag, kind = .unregistered tag → tag ∉ reservedTags) : ofWireTag kind.tag = kind := by
  cases kind with
  | unregistered tag =>
    rw [ScalarKind.tag, ofWireTag, ofTag?_eq_none (h tag rfl)]
    rfl
  | _ => rfl

/-- The tag of a scalar is never taken for that of a composite. -/
theorem tag_not_composite {kind : ScalarKind}
    (h : ∀ tag, kind = .unregistered tag → tag ∉ reservedTags) :
    kind.tag ≠ "array" ∧ kind.tag ≠ "params" ∧ kind.tag ≠ "struct" := by
  cases kind with
  | unregistered tag =>
    have hfree := h tag rfl
    refine ⟨?_, ?_, ?_⟩ <;> rintro heq <;> rw [ScalarKind.tag] at heq <;> subst heq <;>
      exact hfree (by simp [reservedTags])
  | _ => simp [ScalarKind.tag]

end ScalarKind

/-- The tags that read the same wherever they stand: not empty, without blanks, quotes and marks,
    and not one that a reader has a meaning for. -/
structure PlainTag (tag : String) : Prop where
  nonempty : tag ≠ ""
  plain : ∀ c ∈ tag.toList, c ∉ Markup.markupChars
  free : tag ∉ reservedTags

/-- Nothing about a place in a node lets its written form stand for another node. -/
def Node.Unambiguous (n : Node) : Prop :=
  n.Distinct ∧ n.Tagged (· ∉ reservedTags) ∧ n.NoBareValue

namespace Node

/-- Plain tags are given back by their elements. -/
theorem tagged_of_plain {n : Node} (htags : n.Everywhere (Tagged PlainTag)) :
    n.Everywhere (Tagged IsTagName) :=
  htags.imp fun _ h => h.imp fun _ htag => Markup.isTagName_of_plain htag.plain

theorem unambiguous_of_plain {n : Node} (hdistinct : n.Everywhere Distinct)
    (htags : n.Everywhere (Tagged PlainTag)) (hvalue : n.Everywhere NoBareValue) :
    n.Everywhere Unambiguous := by
  have hfree : n.Everywhere fun n => n.Tagged (· ∉ reservedTags) ∧ n.NoBareValue :=
    Everywhere.combine (fun _ h hvalue => ⟨h.imp fun _ htag => htag.free, hvalue⟩) n htags hvalue
  exact Everywhere.combine (fun _ hdistinct h => ⟨hdistinct, h⟩) n hdistinct hfree

end Node

namespace Reply

open Node (parts arrayParts memberParts paramParts toElement Everywhere EveryItem EveryMember
  Unambiguous)

/-! ### From the element back to the node -/

theorem decodeTyped_scalar {s : Scalar}
    (h : ∀ tag, s.kind = .unregistered tag → tag ∉ reservedTags) (children : List Element) :
    decodeTyped ⟨s.tag, s.raw, children⟩ = .ok (.scalar s) := by
  obtain ⟨kind, raw⟩ := s
  obtain ⟨harray, hparams, hstruct⟩ := ScalarKind.tag_not_composite h
  change decodeTyped ⟨kind.tag, raw, children⟩ = _
  rw [decodeTyped, if_neg harray, if_neg hparams, if_neg hstruct, Scalar.ofWireTag,
    ScalarKind.ofWireTag_tag h]

theorem decodeTyped_array (items : List Node) :
    decodeTyped (Node.array items).toElement =
      (decodeEntries (elementsAll (arrayParts items))).map .array := by
  rw [toElement, parts, elementsAll_element]
  change decodeTyped ⟨"array", _, _⟩ = _
  rw [decodeTyped, if_pos rfl, decodeData, if_pos rfl]

theorem decodeTyped_struct (members : List (String × Node)) :
    decodeTyped (Node.struct members).toElement =
      (decodeMembers (elementsAll (memberParts members))).map fun decoded =>
        .struct (Members.ofList decoded) := by
  rw [toElement, parts]
  change decodeTyped ⟨"struct", _, _⟩ = _
  rw [decodeTyped, if_neg (by decide), if_neg (by decide), if_pos rfl]

theorem decodeTyped_params (items : List Node) :
    decodeTyped (Node.params items).toElement =
      (decodeEntries (elementsAll (paramParts items))).map .params := by
  rw [toElement, parts]
  change decodeTyped ⟨"params", _, _⟩ = _
  rw [decodeTyped, if_neg (by decide), if_pos rfl]

mutual

/-- **The element of an unambiguous node stands for the node.** -/
theorem decodeTyped_toElement (n : Node) (h : n.Everywhere Unambiguous) :
    decodeTyped n.toElement = .ok n := by
  cases n with
  | scalar s =>
    rw [Everywhere] at h
    rw [toElement, parts, contentAll_text]
    exact decodeTyped_scalar h.2.1 _
  | array items =>
    rw [Everywhere] at h
    obtain ⟨⟨-, -, hvalue⟩, hitems⟩ := h
    rw [decodeTyped_array, decodeEntries_arrayParts items hitems hvalue]
    rfl
  | struct members =>
    rw [Everywhere] at h
    obtain ⟨⟨hdistinct, -, -⟩, hmembers⟩ := h
    rw [decodeTyped_struct, decodeMembers_memberParts members hmembers]
    change Except.ok (Node.struct (Members.ofList members)) = _
    rw [Members.ofList_of_nodup hdistinct]
  | params items =>
    rw [Everywhere] at h
    rw [decodeTyped_params, decodeEntries_paramParts items h.2]
    rfl

theorem decodeEntries_arrayParts (items : List Node) (h : EveryItem Unambiguous items)
    (hvalue : ∀ item ∈ items, item.typeName ≠ "value") :
    decodeEntries (elementsAll (arrayParts items)) = .ok items := by
  cases items with
  | nil => rfl
  | cons item rest =>
    rw [EveryItem] at h
    have hitem := decodeTyped_toElement item h.1
    have hrest := decodeEntries_arrayParts rest h.2 fun i hi => hvalue i (by simp [hi])
    rw [toElement] at hitem
    rw [arrayParts, elementsAll_element, elementsAll_element, elementsAll_text, decodeEntries,
      decodeEntry, if_neg (hvalue item (by simp)), hitem, hrest]
    rfl

theorem decodeMembers_memberParts (members : List (String × Node))
    (h : EveryMember Unambiguous members) :
    decodeMembers (elementsAll (memberParts members)) = .ok members := by
  cases members with
  | nil => rfl
  | cons entry rest =>
    obtain ⟨name, child⟩ := entry
    rw [EveryMember] at h
    have hchild := decodeTyped_toElement child h.1
    have hrest := decodeMembers_memberParts rest h.2
    have hname : ¬("name" : String) = "value" := by decide
    rw [toElement] at hchild
    rw [memberParts, elementsAll_element, elementsAll_element, elementsAll_element,
      elementsAll_element, contentAll_text, decodeMembers, hrest]
    rw [decodeMemberValue, if_neg hname, decodeMemberValue, if_pos rfl, decodeValue, hchild]
    rfl

theorem decodeEntries_paramParts (items : List Node) (h : EveryItem Unambiguous items) :
    decodeEntries (elementsAll (paramParts items)) = .ok items := by
  cases items with
  | nil => rfl
  | cons item rest =>
    rw [EveryItem] at h
    have hitem := decodeTyped_toElement item h.1
    have hrest := decodeEntries_paramParts rest h.2
    rw [toElement] at hitem
    rw [paramParts, elementsAll_element, elementsAll_element, elementsAll_element, elementsAll_text,
      decodeEntries, decodeEntry, if_pos rfl, decodeValue, hitem, hrest]
    rfl

end

/-! ### In a reply -/

/-- The standard reply around what is written in its `value`. -/
def envelope (wire : String) : String :=
  tagged "methodResponse" (tagged "params" (tagged "param" (tagged "value" wire)))

/-- The pieces in a standard reply with `p` in its `value`. -/
def enveloped (p : Piece) : List Piece :=
  [.element "params" [] [.element "param" [] [.element "value" [] [p]]]]

theorem written_envelope {wire : String} {p : Piece} (h : p.written = wire.toList) :
    (Piece.element "methodResponse" [] (enveloped p)).written = (envelope wire).toList := by
  have hparam := written_around "param" (written_around "value" h)
  exact written_around "methodResponse" (written_around "params" hparam)

theorem wellFormed_enveloped {p : Piece} (h : p.WellFormed) :
    (Piece.element "methodResponse" [] (enveloped p)).WellFormed := by
  have hvalue := wellFormed_around "value" (by simp [vocabulary])
    (allWellFormed_singleton h)
  have hparam := wellFormed_around "param" (by simp [vocabulary])
    (allWellFormed_singleton hvalue)
  have hparams := wellFormed_around "params" (by simp [vocabulary])
    (allWellFormed_singleton hparam)
  exact wellFormed_around "methodResponse" (by simp [vocabulary])
    (allWellFormed_singleton hparams)

/-- The four elements around a value leave 508 levels for it. -/
theorem depth_enveloped (p : Piece) :
    (Piece.element "methodResponse" [] (enveloped p)).depth ≤ Markup.maxDepth ↔ p.depth ≤ 508 := by
  rw [enveloped, depth_around, depth_around, depth_around, depth_around]
  exact Nat.add_le_add_iff_right (n := 4) (m := p.depth) (k := 508)

/-- **A standard reply stands for what its `value` stands for, or is too deep.** -/
theorem decode_enveloped {body : String} {p : Piece} (hp : p.WellFormed)
    (hbody : body.toList = (Piece.element "methodResponse" [] (enveloped p)).written) :
    decode body =
      if p.depth ≤ 508 then
        reported body (decodeValue ⟨"value", contentAll [p], elementsAll [p]⟩)
      else .error ⟨.malformed .tooDeep, body⟩ := by
  have hparse := Element.parse_written (wellFormed_enveloped hp) hbody
  rw [decode, document, hparse]
  by_cases hdepth : p.depth ≤ 508
  · rw [if_pos ((depth_enveloped p).2 hdepth), if_pos hdepth, enveloped, elementsAll_element,
      elementsAll_element, elementsAll_element]
    rfl
  · rw [if_neg (mt (depth_enveloped p).1 hdepth), if_neg hdepth]
    rfl

/-- **What becomes of a node in a reply.**  If its tags are given back by their elements, then the
    reply stands for what the element of the node stands for, or is refused for its depth. -/
theorem decode_envelope_of_names {n : Node} (h : n.Everywhere (Node.Tagged IsTagName)) :
    decode (envelope n.toWire) =
      if n.height ≤ 508 then reported (envelope n.toWire) (decodeTyped n.toElement)
      else .error ⟨.malformed .tooDeep, envelope n.toWire⟩ := by
  have hbody := (written_envelope (Node.written_piece n)).symm
  rw [decode_enveloped (Node.wellFormed_piece n h) hbody, Node.depth_piece, elementsAll_element]
  rfl

/-- **Encoding and decoding, with the exact limit on depth.**  A node whose members have distinct
    names, whose unregistered tags are plain, and whose arrays hold no scalar tagged `value` is
    read again from a reply if its height is at most 508, and otherwise the reply is refused for
    its depth. -/
theorem decode_envelope (n : Node) (hdistinct : n.Everywhere Node.Distinct)
    (htags : n.Everywhere (Node.Tagged PlainTag)) (hvalue : n.Everywhere Node.NoBareValue) :
    decode (envelope n.toWire) =
      if n.height ≤ 508 then .ok n else .error ⟨.malformed .tooDeep, envelope n.toWire⟩ := by
  have htyped := decodeTyped_toElement n (Node.unambiguous_of_plain hdistinct htags hvalue)
  rw [decode_envelope_of_names (Node.tagged_of_plain htags), htyped]
  rfl

theorem decode_envelope_dated :
    decode (envelope (Node.struct [("<since>", .array [.scalar ⟨.unregistered "date", " & \n"⟩]),
        ("", .params [])]).toWire) =
      .ok (.struct [("<since>", .array [.scalar ⟨.unregistered "date", " & \n"⟩]),
        ("", .params [])]) := by
  have hdate : PlainTag "date" :=
    ⟨by decide, by simp [Markup.markupChars], by simp [reservedTags]⟩
  have hread := decode_envelope (.struct [("<since>", .array [.scalar
      ⟨.unregistered "date", " & \n"⟩]), ("", .params [])])
    (by simp [Everywhere, EveryItem, EveryMember, Node.Distinct, Members.names])
    (by simp [Everywhere, EveryItem, EveryMember, Node.Tagged, hdate])
    (by simp [Everywhere, EveryItem, EveryMember, Node.NoBareValue, Node.typeName, Scalar.tag,
      ScalarKind.tag])
  rw [if_pos (by decide)] at hread
  exact hread

end Reply

end XmlRpc
