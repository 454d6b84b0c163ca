/-
  XmlRpc/Proofs/FaultReply.lean
  =============================
  **A fault that is written into a reply is reported as it was.**

  The three elements of a fault reply leave 509 levels for the node in it
  (`parse_faultEnvelope`).  The first element called `fault` is then the one of the
  envelope, whatever the node holds, and its `value` stands for the node.  So what is
  reported depends on two members of the node alone (`answer_faultEnvelope`): the
  message is the text of `faultString`, and the code is there if `faultCode` has an
  integer for it.
-/
import XmlRpc.Call
import XmlRpc.Proofs.IntegerTexts
import XmlRpc.Proofs.RoundTrip

namespace XmlRpc

open Markup (Element Piece IsTagName tagged maxDepth)
open Markup.Piece (written_around allWellFormed_singleton depth_around elementsAll_element)
open Node (Everywhere EveryItem EveryMember Distinct Tagged NoBareValue Unambiguous)

/-! ### The members that make a fault -/

theorem Node.toScalar?_eq_some_iff {n : Node} {s : Scalar} :
    n.toScalar? = some s ↔ n = .scalar s := by
  cases n <;> simp [toScalar?]

namespace Fault

theorem ofNode?_of_text {n : Node} {s : Scalar} (h : n.get? "faultString" = some (.scalar s)) :
    ∃ code, ofNode? n = some ⟨code, s.raw⟩ ∧
      ∀ k, code = some k ↔ ∃ c, n.get? "faultCode" = some (.scalar c) ∧ c.toInteger = .ok k := by
  refine ⟨_, by rw [ofNode?, h]; rfl, ?_⟩
  intro k
  simp only [Option.bind_eq_some_iff, Node.toScalar?_eq_some_iff]
  constructor
  · rintro ⟨c, ⟨_, hcode, rfl⟩, hk⟩
    refine ⟨c, hcode, ?_⟩
    cases hinteger : c.toInteger with
    | error error => simp [hinteger, Except.toOption] at hk
    | ok value => simpa [hinteger, Except.toOption] using hk
  · rintro ⟨c, hcode, hk⟩
    exact ⟨c, ⟨_, hcode, rfl⟩, by rw [hk]; rfl⟩

theorem ofNode?_of_integer {n : Node} {k : Int64} {m : String}
    (hcode : n.get? "faultCode" = some (.integer k))
    (htext : n.get? "faultString" = some (.string m)) : ofNode? n = some ⟨some k, m⟩ := by
  rw [ofNode?, hcode, htext]
  change some (Fault.mk (Scalar.toInteger ⟨.integer, Integer.render k⟩).toOption m) = _
  rw [Scalar.toInteger_render]
  rfl

theorem ofNode?_eq_none {n : Node} (h : ∀ s, n.get? "faultString" ≠ some (.scalar s)) :
    ofNode? n = none := by
  rw [ofNode?, Option.map_eq_none_iff, Option.eq_none_iff_forall_ne_some]
  intro s hs
  obtain ⟨text, htext, hscalar⟩ := Option.bind_eq_some_iff.1 hs
  rw [Node.toScalar?_eq_some_iff.1 hscalar] at htext
  exact h s htext

end Fault

/-! ### The document of a fault reply -/

/-- The standard reply that reports a fault, around what is written in its `value`. -/
def faultEnvelope (wire : String) : String :=
  tagged "methodResponse" (tagged "fault" (tagged "value" wire))

/-- The element tree of a fault reply. -/
def faultDocument (typed : Element) : Element :=
  ⟨"methodResponse", "", [⟨"fault", "", [⟨"value", "", [typed]⟩]⟩]⟩

/-- The pieces in a fault reply with `p` in its `value`. -/
def faulted (p : Piece) : List Piece :=
  [.element "fault" [] [.element "value" [] [p]]]

theorem written_faultEnvelope {wire : String} {p : Piece} (h : p.written = wire.toList) :
    (Piece.element "methodResponse" [] (faulted p)).written = (faultEnvelope wire).toList :=
  written_around "methodResponse" (written_around "fault" (written_around "value" h))

theorem wellFormed_faulted {p : Piece} (h : p.WellFormed) :
    (Piece.element "methodResponse" [] (faulted p)).WellFormed := by
  apply wellFormed_around "methodResponse" (by simp [vocabulary])
  apply allWellFormed_singleton
  apply wellFormed_around "fault" (by simp [vocabulary])
  apply allWellFormed_singleton
  apply wellFormed_around "value" (by simp [vocabulary])
  exact allWellFormed_singleton h

theorem depth_faulted (p : Piece) :
    (Piece.element "methodResponse" [] (faulted p)).depth ≤ maxDepth ↔ p.depth ≤ 509 := by
  rw [faulted, depth_around, depth_around, depth_around]
  exact Nat.add_le_add_iff_right (n := 3) (m := p.depth) (k := 509)

/-- **The document of a fault reply.**  The three elements around the node leave 509 levels. -/
theorem parse_faultEnvelope {n : Node} (h : n.Everywhere (Tagged IsTagName)) :
    Element.parse (faultEnvelope n.toWire) =
      if n.height ≤ 509 then .ok (faultDocument n.toElement) else .error .tooDeep := by
  have hlimit := depth_faulted (.element n.typeName [] n.parts)
  rw [Node.depth_piece] at hlimit
  rw [Element.parse_written (wellFormed_faulted (Node.wellFormed_piece n h))
    (written_faultEnvelope (Node.written_piece n)).symm]
  by_cases hheight : n.height ≤ 509
  · rw [if_pos hheight, if_pos (hlimit.2 hheight), faulted, elementsAll_element,
      elementsAll_element]
    rfl
  · rw [if_neg hheight, if_neg (mt hlimit.1 hheight)]

theorem Fault.find?_faultDocument {typed : Element} {n : Node}
    (h : Reply.decodeTyped typed = .ok n) :
    find? (faultDocument typed) =
      match ofNode? n with
      | some fault => .ok (some fault)
      | none => .error .malformedFault := by
  have hvalue : Reply.decodeValue ⟨"value", "", [typed]⟩ = .ok n := by
    rw [Reply.decodeValue, h]
  -- the search meets this element before any other of the name inside `typed`
  have hfound : (faultDocument typed).find? "fault" =
      some ⟨"fault", "", [⟨"value", "", [typed]⟩]⟩ := by
    simp [faultDocument, Element.find?, Element.findIn?]
  have hchild : Element.child? "value" ⟨"fault", "", [⟨"value", "", [typed]⟩]⟩ =
      some ⟨"value", "", [typed]⟩ := by
    simp [Element.child?]
  simp only [find?, hfound, ofElement, hchild, hvalue]
  cases ofNode? n <;> rfl

namespace Call

/-- **What becomes of a node in a fault reply.** -/
theorem answer_faultEnvelope {n : Node} (hnames : n.Everywhere (Tagged IsTagName))
    (hn : n.Everywhere Unambiguous) :
    answer (faultEnvelope n.toWire) =
      if n.height ≤ 509 then
        match Fault.ofNode? n with
        | some fault => .ok (.fault fault)
        | none => .error (.reply ⟨.malformed .malformedFault, faultEnvelope n.toWire⟩)
      else .error (.reply ⟨.malformed .tooDeep, faultEnvelope n.toWire⟩) := by
  have hfind := Fault.find?_faultDocument (Reply.decodeTyped_toElement n hn)
  rw [answer, Response.parse, Reply.document, parse_faultEnvelope hnames]
  by_cases hheight : n.height ≤ 509
  · rw [if_pos hheight, if_pos hheight]
    change Except.mapError _ (Reply.reported _ (Fault.find? (faultDocument n.toElement)) >>= _) = _
    rw [hfind]
    cases Fault.ofNode? n <;> rfl
  · rw [if_neg hheight, if_neg hheight]
    rfl

/-- **A fault reply carries its fault exactly.**  The message is the text of `faultString`, and the
    code is what `faultCode` has as an integer, wherever these stand; and a node whose
    `faultString` is no scalar, or that has none, is no fault. -/
theorem answer_of_fault {n : Node} (hdistinct : n.Everywhere Distinct)
    (htags : n.Everywhere (Tagged PlainTag)) (hvalue : n.Everywhere NoBareValue)
    (hheight : n.height ≤ 509) :
    (∀ s, n.get? "faultString" = some (.scalar s) →
      ∃ code, answer (faultEnvelope n.toWire) = .ok (.fault ⟨code, s.raw⟩) ∧
        ∀ k, code = some k ↔
          ∃ c, n.get? "faultCode" = some (.scalar c) ∧ c.toInteger = .ok k) ∧
    ((∀ s, n.get? "faultString" ≠ some (.scalar s)) →
      answer (faultEnvelope n.toWire) =
        .error (.reply ⟨.malformed .malformedFault, faultEnvelope n.toWire⟩)) ∧
    ∀ k m, answer (faultEnvelope
        (Node.struct [("faultCode", .integer k), ("faultString", .string m)]).toWire) =
      .ok (.fault ⟨some k, m⟩) := by
  have hanswer := answer_faultEnvelope (Node.tagged_of_plain htags)
    (Node.unambiguous_of_plain hdistinct htags hvalue)
  rw [if_pos hheight] at hanswer
  refine ⟨?_, ?_, ?_⟩
  · intro s hs
    obtain ⟨code, hfault, hcode⟩ := Fault.ofNode?_of_text hs
    rw [hfault] at hanswer
    exact ⟨code, hanswer, hcode⟩
  · intro hnone
    rw [Fault.ofNode?_eq_none hnone] at hanswer
    exact hanswer
  · intro k m
    have hheight : (Node.struct [("faultCode", .integer k), ("faultString", .string m)]).height ≤
        509 := by
      simp [Node.height, Node.membersHeight, Node.integer, Node.string]
    rw [answer_faultEnvelope, if_pos hheight, Fault.ofNode?_of_integer rfl rfl]
    · simp [Everywhere, EveryMember, Tagged, Node.integer, Node.string]
    · simp [Everywhere, EveryMember, Unambiguous, Distinct, Members.names, Tagged, NoBareValue,
        Node.integer, Node.string]

theorem answer_of_fault_nested :
    answer (faultEnvelope (Node.struct
        [("detail", .array [.scalar ⟨.unregistered "fault", "</fault>"⟩]),
         ("faultString", .string " <&>\n"), ("faultCode", .boolean true)]).toWire) =
      .ok (.fault ⟨some 1, " <&>\n"⟩) := by
  have hfault : PlainTag "fault" :=
    ⟨by decide, by simp [Markup.markupChars], by simp [reservedTags]⟩
  have hanswer := answer_of_fault (n := .struct
      [("detail", .array [.scalar ⟨.unregistered "fault", "</fault>"⟩]),
       ("faultString", .string " <&>\n"), ("faultCode", .boolean true)])
    (by simp [Everywhere, EveryItem, EveryMember, Distinct, Members.names, Node.string,
      Node.boolean])
    (by simp [Everywhere, EveryItem, EveryMember, Tagged, Node.string, Node.boolean, hfault])
    (by simp [Everywhere, EveryItem, EveryMember, NoBareValue, Node.typeName, Node.string,
      Node.boolean, Scalar.tag, ScalarKind.tag])
    (by decide)
  obtain ⟨code, hreply, hcode⟩ := hanswer.1 ⟨.string, " <&>\n"⟩ rfl
  rw [hreply, (hcode 1).2 ⟨⟨.boolean, "1"⟩, rfl, by decide⟩]

end Call

end XmlRpc
