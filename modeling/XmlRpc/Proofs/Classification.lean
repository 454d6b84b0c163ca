/-
  XmlRpc/Proofs/Classification.lean
  =================================
  **Which outcome a reply has, and what it depends on.**

  A text that is no document is reported as such.  Of a document with an element
  called `fault` nothing else is looked at: the outcome is that of the first such
  element in document order (`parse_of_fault`), so that two replies with the same
  first fault have the same outcome, whatever else is in them.  Every other document
  has the outcome of its value (`parse_of_none`).

  Document order is that of `Element.inOrder`, the list of all elements of a tree; the
  search of a tree is the search of this list (`find?_eq_inOrder`).
-/
import XmlRpc.Proofs.Nesting

namespace XmlRpc

namespace Markup.Element

/-! ### Document order -/

/-- All elements of a tree in document order. -/
def inOrder (e : Element) : List Element :=
  (e.levels 1).map Prod.snd

mutual

theorem find?_levels (name : String) (depth : Nat) (e : Element) :
    ((e.levels depth).map Prod.snd).find? (fun e => e.name = name) = e.find? name := by
  cases e with
  | mk own text children =>
    rw [levels, find?, List.map_cons, List.find?_cons]
    by_cases hname : own = name
    · simp [hname]
    · simpa [hname] using find?_levelsIn name (depth + 1) children

theorem find?_levelsIn (name : String) (depth : Nat) (trees : List Element) :
    ((levelsIn depth trees).map Prod.snd).find? (fun e => e.name = name) =
      findIn? name trees := by
  cases trees with
  | nil => rfl
  | cons tree rest =>
    rw [levelsIn, findIn?, List.map_append, List.find?_append, find?_levels name depth tree,
      find?_levelsIn name depth rest]

end

/-- **A search finds the first element in document order.** -/
theorem find?_eq_inOrder (name : String) (e : Element) :
    e.find? name = e.inOrder.find? fun e => e.name = name :=
  (find?_levels name 1 e).symm

theorem exists_find?_of_mem {name : String} {root : Element}
    (h : ∃ e ∈ root.inOrder, e.name = name) : ∃ first, root.find? name = some first := by
  obtain ⟨e, he, hname⟩ := h
  rw [← Option.isSome_iff_exists, find?_eq_inOrder, List.find?_isSome]
  exact ⟨e, he, decide_eq_true hname⟩

theorem find?_eq_none_of_forall {name : String} {root : Element}
    (h : ∀ e ∈ root.inOrder, e.name ≠ name) : root.find? name = none := by
  rw [find?_eq_inOrder, List.find?_eq_none]
  intro e he hname
  exact h e he (of_decide_eq_true hname)

end Markup.Element

open Markup (Element)

/-- A `fault` that cannot be read is refused for one reason only. -/
theorem Fault.ofElement_cases (e : Element) :
    (∃ fault, ofElement e = .ok fault) ∨ ofElement e = .error .malformedFault := by
  unfold ofElement
  split
  · exact Or.inr rfl
  · split
    · exact Or.inr rfl
    · split
      · exact Or.inr rfl
      · exact Or.inl ⟨_, rfl⟩

namespace Response

/-! ### The three ways -/

variable {body : String} {root : Element}

theorem parse_of_error {error : Markup.DocumentError} (h : Element.parse body = .error error) :
    parse body = .error ⟨.ofDocumentError error, body⟩ := by
  rw [parse_eq_ofDocument, Reply.document, h]
  rfl

theorem parse_of_document (h : Element.parse body = .ok root) :
    parse body = Reply.reported body (ofDocument root) := by
  rw [parse_eq_ofDocument, Reply.document, h]
  rfl

/-- A document with a fault has the outcome of its first one. -/
theorem parse_of_fault {first : Element} (h : Element.parse body = .ok root)
    (hfirst : root.find? "fault" = some first) :
    parse body = Reply.reported body ((Fault.ofElement first).map .fault) := by
  have hfind : Fault.find? root = (Fault.ofElement first).map some := by rw [Fault.find?, hfirst]
  rw [parse_of_document h, ofDocument, hfind]
  rcases Fault.ofElement first with reason | fault <;> rfl

/-- A document without a fault has the outcome of its value. -/
theorem parse_of_none (h : Element.parse body = .ok root) (hnone : root.find? "fault" = none) :
    parse body = (Reply.decode body).map .success := by
  have hfind : Fault.find? root = .ok none := by rw [Fault.find?, hnone]
  rw [parse_of_document h, ofDocument, hfind, Reply.decode, Reply.document, h]
  change Reply.reported body (do return Response.success (← Reply.decodeDocument root)) =
    (Reply.reported body (Reply.decodeDocument root)).map .success
  rcases Reply.decodeDocument root with reason | n <;> rfl

theorem raw_of_reported {α : Type} {result : Except Malformed α} {error : Reply.Error}
    (h : Reply.reported body result = .error error) : error.raw = body := by
  rcases result with reason | a
  · cases h
    rfl
  · cases h

/-- An error keeps the text of the reply. -/
theorem raw_of_parse {error : Reply.Error} (h : parse body = .error error) :
    error.raw = body := by
  rcases hdocument : Element.parse body with cause | root
  · rw [parse_of_error hdocument] at h
    cases h
    rfl
  · rw [parse_of_document hdocument] at h
    exact raw_of_reported h

/-- What is reported, apart from the text it is reported with. -/
theorem mapError_reported {α : Type} (body : String) (result : Except Malformed α) :
    (Reply.reported body result).mapError Reply.Error.cause =
      result.mapError Reply.Cause.malformed := by
  rcases result with reason | a <;> rfl

/-- **Every reply has one of three outcomes.**  A text that is no document is reported with the
    cause.  With a `fault` at any depth the outcome is a fault, or the reason that it is malformed,
    and two replies whose first faults are the same have the same one.  Without a `fault` the
    outcome is that of the value.  An error always keeps the text. -/
theorem parse_cases (body : String) :
    (∀ cause, Element.parse body = .error (.illFormed cause) →
      parse body = .error ⟨.xml cause, body⟩) ∧
    (Element.parse body = .error .tooDeep → parse body = .error ⟨.malformed .tooDeep, body⟩) ∧
    (∀ root, Element.parse body = .ok root → (∃ e ∈ root.inOrder, e.name = "fault") →
      (∃ fault, parse body = .ok (.fault fault)) ∨
        parse body = .error ⟨.malformed .malformedFault, body⟩) ∧
    (∀ body' root root' first, Element.parse body = .ok root → Element.parse body' = .ok root' →
      (root.inOrder.find? fun e => e.name = "fault") = some first →
      (root'.inOrder.find? fun e => e.name = "fault") = some first →
      (parse body).mapError Reply.Error.cause = (parse body').mapError Reply.Error.cause) ∧
    (∀ root, Element.parse body = .ok root → (∀ e ∈ root.inOrder, e.name ≠ "fault") →
      parse body = (Reply.decode body).map .success) ∧
    (∀ error, parse body = .error error → error.raw = body) := by
  refine ⟨?_, ?_, ?_, ?_, ?_, ?_⟩
  · intro cause h
    exact parse_of_error h
  · intro h
    exact parse_of_error h
  · intro root h hfault
    obtain ⟨first, hfirst⟩ := Element.exists_find?_of_mem hfault
    rw [parse_of_fault h hfirst]
    rcases Fault.ofElement_cases first with ⟨fault, hread⟩ | hread
    · rw [hread]
      exact Or.inl ⟨fault, rfl⟩
    · rw [hread]
      exact Or.inr rfl
  · intro body' root root' first h h' hfirst hfirst'
    rw [← Element.find?_eq_inOrder] at hfirst hfirst'
    rw [parse_of_fault h hfirst, parse_of_fault h' hfirst', mapError_reported, mapError_reported]
  · intro root h hnone
    exact parse_of_none h (Element.find?_eq_none_of_forall hnone)
  · intro error h
    exact raw_of_parse h

theorem parse_cases_short :
    parse "<a>" = .error ⟨.xml (.unclosed "a"), "<a>"⟩ ∧
    parse (Markup.nestedText 513) = .error ⟨.malformed .tooDeep, Markup.nestedText 513⟩ ∧
    parse "<a>x<fault/></a>" = .error ⟨.malformed .malformedFault, "<a>x<fault/></a>"⟩ ∧
    (parse "<a>x<fault/></a>").mapError Reply.Error.cause =
      (parse "<fault/>").mapError Reply.Error.cause ∧
    parse "<b/>" = (Reply.decode "<b/>").map .success := by
  have hopen : Element.parse "<a>" = .error (.illFormed (.unclosed "a")) := by
    with_unfolding_all rfl
  have hdeep : Element.parse (Markup.nestedText 513) = .error .tooDeep := by
    rw [Element.parse_nestedText, if_neg (by decide)]
  have hinside : Element.parse "<a>x<fault/></a>" = .ok ⟨"a", "x", [.empty "fault"]⟩ := by
    with_unfolding_all rfl
  have halone : Element.parse "<fault/>" = .ok (.empty "fault") := by
    with_unfolding_all rfl
  have hnone : Element.parse "<b/>" = .ok (.empty "b") := by
    with_unfolding_all rfl
  obtain ⟨hillFormed, -, -, -, -, -⟩ := parse_cases "<a>"
  obtain ⟨-, htooDeep, -, -, -, -⟩ := parse_cases (Markup.nestedText 513)
  obtain ⟨-, -, hfault, hsame, -, -⟩ := parse_cases "<a>x<fault/></a>"
  obtain ⟨-, -, -, -, hvalue, -⟩ := parse_cases "<b/>"
  refine ⟨hillFormed _ hopen, htooDeep hdeep, ?_, hsame _ _ _ _ hinside halone rfl rfl,
    hvalue _ hnone ?_⟩
  · rcases hfault _ hinside ⟨.empty "fault", by simp [Element.inOrder, Element.levels,
      Element.levelsIn, Element.empty], rfl⟩ with ⟨fault, hread⟩ | hread
    · cases (parse_of_fault hinside rfl).symm.trans hread
    · exact hread
  · simp [Element.inOrder, Element.levels, Element.levelsIn, Element.empty]

end Response

end XmlRpc
