/-
  XmlRpc/Proofs/CallShape.lean
  ============================
  **Nothing that a caller passes changes the shape of a call.**

  A call interpolates texts of the caller in three places: the name of the method,
  the text of a scalar and the name of a member, and it writes the tags of
  unregistered scalars as they are.  `parse_toWire` says what document the call is:
  a `methodCall` with a `methodName` that holds exactly the name of the method, and
  with the `params` element of the arguments, and nothing else.  For arguments with
  plain tags that element stands for exactly the arguments (`params_of_toWire`).
-/
import XmlRpc.Call
import XmlRpc.Proofs.RoundTrip

namespace XmlRpc.Call

open Markup (Builder Element Piece IsTagName tagged)
open Markup.Piece (writtenAll AllWellFormed)
open Node (Everywhere Distinct Tagged NoBareValue)

/-- The first line of a call. -/
def prolog : Piece :=
  .instruction "xml version=\"1.0\""

/-- The pieces in the `methodCall`. -/
def body (call : Call) : List Piece :=
  [.element "methodName" [] [.text call.method],
   .element "params" [] (Node.params call.params).parts]

theorem written_body (call : Call) :
    writtenAll call.body = (tagged "methodName" (Markup.escape call.method) ++
      (Node.params call.params).toWire).toList := by
  have hname := Piece.written_around "methodName" (Piece.written_text call.method)
  have hparams := Node.written_piece (.params call.params)
  rw [body, writtenAll, Piece.writtenAll_singleton, hname, String.toList_append, ← hparams]
  rfl

/-- The document of a call is its prolog and one element. -/
theorem written_call (call : Call) :
    call.toWire.toList = prolog.written ++ (Piece.element "methodCall" [] call.body).written := by
  have hprolog : ("<?xml version=\"1.0\"?>" : String).toList = prolog.written := by decide
  rw [Piece.written_element "methodCall" _ _ (written_body call), ← hprolog,
    ← String.toList_append]
  rfl

theorem wellFormed_body {call : Call}
    (h : (Node.params call.params).Everywhere (Tagged IsTagName)) :
    (Piece.element "methodCall" [] call.body).WellFormed := by
  have hname := wellFormed_around "methodName" (by simp [vocabulary])
    (Piece.allWellFormed_singleton (Piece.wellFormed_text call.method))
  have hparams := Node.wellFormed_piece (.params call.params) h
  refine wellFormed_around "methodCall" (by simp [vocabulary]) ?_
  rw [body, AllWellFormed]
  exact ⟨hname, Piece.allWellFormed_singleton hparams⟩

/-- The `methodCall` leaves 511 levels for the arguments. -/
theorem depth_body (call : Call) :
    (Piece.element "methodCall" [] call.body).depth = (Node.params call.params).height + 1 := by
  have hparams := Node.depth_piece (.params call.params)
  have hpos := Node.height_pos (.params call.params)
  rw [Node.typeName] at hparams
  rw [Piece.depth, body, Piece.depthAll, Piece.depthAll, Piece.depthAll, Piece.depth_around,
    Piece.depth_text, hparams]
  omega

/-- **The document of a call.**  It is as deep as its arguments allow, and it has no other element
    and no other text than those of the method and of the arguments. -/
theorem parse_toWire (call : Call) (h : (Node.params call.params).Everywhere (Tagged IsTagName)) :
    Element.parse call.toWire =
      if (Node.params call.params).height ≤ 511 then
        .ok ⟨"methodCall", "",
          [⟨"methodName", call.method, []⟩, (Node.params call.params).toElement]⟩
      else .error .tooDeep := by
  have hprolog : prolog.WellFormed := by
    rw [prolog, Piece.WellFormed]
    exact ⟨by decide, by simp⟩
  have hskip := Builder.read_written prolog hprolog (by rintro content ⟨⟩) Builder.start
    (Nat.zero_le _) (Piece.element "methodCall" [] call.body).written
  rw [if_pos (by decide)] at hskip
  have hmark : Markup.afterMark call.toWire.toList =
      prolog.written ++ (Piece.element "methodCall" [] call.body).written := by
    rw [written_call]
    rfl
  rw [Element.parse_eq_read, hmark, hskip]
  change Builder.start.read _ = _
  rw [Builder.read_root (wellFormed_body h), depth_body]
  have hlimit : (Node.params call.params).height + 1 ≤ Markup.maxDepth ↔
      (Node.params call.params).height ≤ 511 := Nat.succ_le_succ_iff
  by_cases hheight : (Node.params call.params).height ≤ 511
  · rw [if_pos hheight, if_pos (hlimit.2 hheight), body, Piece.elementsAll_element,
      Piece.elementsAll_element]
    simp [Piece.contentAll, Piece.content, Piece.elementsAll, Piece.elements, Node.toElement,
      Node.typeName]
  · rw [if_neg hheight, if_neg (mt hlimit.1 hheight)]

/-- **No injection through a call.**  Whatever a caller passes as the method, as texts and as names
    of members, the call is read as a `methodCall` with no text of its own and two children: the
    name of the method, with nothing in it but that, and the parameters, which stand for exactly
    the arguments. -/
theorem params_of_toWire (method : String) (arguments : List Node)
    (hdistinct : (Node.params arguments).Everywhere Distinct)
    (htags : (Node.params arguments).Everywhere (Tagged PlainTag))
    (hvalue : (Node.params arguments).Everywhere NoBareValue)
    (hheight : (Node.params arguments).height ≤ 511) :
    ∃ root name list, Element.parse (toWire ⟨method, arguments⟩) = .ok root ∧
      root.name = "methodCall" ∧ root.text = "" ∧ root.children = [name, list] ∧
      name.name = "methodName" ∧ name.children = [] ∧ name.text = method ∧
      list.name = "params" ∧ Reply.decodeTyped list = .ok (.params arguments) := by
  have hparse := parse_toWire ⟨method, arguments⟩ (Node.tagged_of_plain htags)
  rw [if_pos hheight] at hparse
  have hdecode := Reply.decodeTyped_toElement (.params arguments)
    (Node.unambiguous_of_plain hdistinct htags hvalue)
  exact ⟨_, _, _, hparse, rfl, rfl, rfl, rfl, rfl, rfl, rfl, hdecode⟩

theorem params_of_toWire_markup :
    ∃ root name list, Element.parse (toWire ⟨"</methodName><params/>", [.array [.string "]]>"]]⟩) =
        .ok root ∧
      root.name = "methodCall" ∧ root.text = "" ∧ root.children = [name, list] ∧
      name.name = "methodName" ∧ name.children = [] ∧ name.text = "</methodName><params/>" ∧
      list.name = "params" ∧
      Reply.decodeTyped list = .ok (.params [.array [.string "]]>"]]) := by
  refine params_of_toWire "</methodName><params/>" [.array [.string "]]>"]] ?_ ?_ ?_ (by decide)
  · simp [Everywhere, Node.EveryItem, Distinct, Node.string]
  · simp [Everywhere, Node.EveryItem, Tagged, Node.string]
  · simp [Everywhere, Node.EveryItem, NoBareValue, Node.string, Node.typeName, Scalar.tag,
      ScalarKind.tag]

end XmlRpc.Call
