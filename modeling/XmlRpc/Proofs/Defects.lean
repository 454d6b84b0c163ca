/-
  XmlRpc/Proofs/Defects.lean
  ==========================
  **A decoder reports the first defect in document order.**

  A decoder stops at the first reason against a reply.  What it would meet if it never
  stopped is said apart from it: `walk` is everything that is read of an element, in
  document order (`walk_sublist`), and `defects` are the elements of this walk that are
  defective by themselves.  A decoder accepts an element exactly if it has no defect, and
  it refuses it for the first one exactly (`settled_by_defects`).

  The induction is on the element tree, for the reader by roles: the reason of an
  element comes before those of its parts, and the reason of a part before those of the
  parts behind it.
-/
import XmlRpc.Proofs.Classification
import XmlRpc.Proofs.Roles

namespace XmlRpc.Reply

open Markup (Element)

/-! ### All defects -/

mutual

/-- Everything that is read of an element, in document order, with the role it is read in. -/
def walk (role : Role) : Element → List (Role × Element)
  | ⟨name, text, children⟩ =>
    (role, ⟨name, text, children⟩) :: walkAll (role.belowOf ⟨name, text, children⟩) children

def walkAll : List (Option Role) → List Element → List (Role × Element)
  | _, [] => []
  | [], _ :: _ => []
  | none :: roles, _ :: rest => walkAll roles rest
  | some role :: roles, child :: rest => walk role child ++ walkAll roles rest

end

mutual

theorem walk_sublist_levels (depth : Nat) (role : Role) (e : Element) :
    List.Sublist ((walk role e).map Prod.snd) ((e.levels depth).map Prod.snd) := by
  cases e with
  | mk name text children =>
    rw [walk, Element.levels, List.map_cons, List.map_cons]
    apply List.Sublist.cons_cons
    exact walkAll_sublist_levelsIn (depth + 1) _ children

theorem walkAll_sublist_levelsIn (depth : Nat) (roles : List (Option Role))
    (children : List Element) :
    List.Sublist ((walkAll roles children).map Prod.snd)
      ((Element.levelsIn depth children).map Prod.snd) := by
  cases children with
  | nil => cases roles <;> exact List.nil_sublist _
  | cons child rest =>
    rw [Element.levelsIn, List.map_append]
    cases roles with
    | nil => exact List.nil_sublist _
    | cons role roles =>
      have hrest := walkAll_sublist_levelsIn depth roles rest
      cases role with
      | none => exact hrest.trans (List.sublist_append_right _ _)
      | some role =>
        rw [walkAll, List.map_append]
        exact (walk_sublist_levels depth role child).append hrest

end

/-- The walk meets the elements of a tree in document order, each once at most. -/
theorem walk_sublist (role : Role) (e : Element) :
    List.Sublist ((walk role e).map Prod.snd) e.inOrder :=
  walk_sublist_levels 1 role e

/-- The defects among what was walked. -/
def defectsIn (places : List (Role × Element)) : List Malformed :=
  places.filterMap fun place => place.1.defect? place.2

/-- All defects of an element that is read in a role. -/
def defects (role : Role) (e : Element) : List Malformed :=
  defectsIn (walk role e)

/-- All defects of a document that is read as a reply. -/
def documentDefects (document : Element) : List Malformed :=
  match document.find? "methodResponse" with
  | none => [.missingMethodResponse]
  | some response => defects .response response

/-! ### The reason of a result -/

section Refusal

variable {ε α β : Type}

/-- The reason against a result. -/
def refusal? : Except ε α → Option ε
  | .error reason => some reason
  | .ok _ => none

theorem refusal_map (x : Except ε α) (f : α → β) : refusal? (x.map f) = refusal? x := by
  cases x <;> rfl

/-- The first of two steps is refused first. -/
theorem refusal_bind (x : Except ε α) (y : Except ε β) (f : α → β → α) :
    refusal? (do return f (← x) (← y)) = (refusal? x).or (refusal? y) := by
  cases x with
  | error reason => rfl
  | ok a => cases y <;> rfl

end Refusal

mutual

/-- **The first defect is the reason.** -/
theorem refusal_read (role : Role) (e : Element) :
    refusal? (read role e) = (defects role e).head? := by
  cases e with
  | mk name text children =>
    have hparts := refusal_readAll (role.belowOf ⟨name, text, children⟩) children
    rw [read, defects, walk, defectsIn, List.filterMap_cons, ← defectsIn]
    cases role.defect? ⟨name, text, children⟩ with
    | none =>
      dsimp only
      rw [refusal_map]
      exact hparts
    | some reason => rfl

theorem refusal_readAll (roles : List (Option Role)) (children : List Element) :
    refusal? (readAll roles children) = (defectsIn (walkAll roles children)).head? := by
  cases children with
  | nil =>
    rw [readAll_nil]
    cases roles <;> rfl
  | cons child rest =>
    cases roles with
    | nil => rfl
    | cons role roles =>
      have hrest := refusal_readAll roles rest
      cases role with
      | none => exact hrest
      | some role =>
        have hchild := refusal_read role child
        rw [readAll, walkAll, defectsIn, List.filterMap_append, List.head?_append, ← defectsIn,
          ← defectsIn, ← hrest]
        rw [defects] at hchild
        rw [← hchild]
        exact refusal_bind _ _ _

end

/-! ### What is accepted, and what is refused -/

/-- A result that the defects decide: accepted without any, and refused for the first. -/
structure Settled (result : Except Malformed Node) (defects : List Malformed) : Prop where
  accepted : (∃ n, result = .ok n) ↔ defects = []
  refused : ∀ reason, result = .error reason ↔ defects.head? = some reason

theorem settled_of_refusal {result : Except Malformed Node} {defects : List Malformed}
    (h : refusal? result = defects.head?) : Settled result defects := by
  cases result with
  | ok n =>
    have hnone : defects = [] := List.head?_eq_none_iff.1 h.symm
    constructor
    · exact ⟨fun _ => hnone, fun _ => ⟨n, rfl⟩⟩
    · intro reason
      rw [hnone]
      constructor <;> nofun
  | error first =>
    have hsome : defects.head? = some first := h.symm
    constructor
    · constructor
      · rintro ⟨n, hn⟩
        cases hn
      · rintro rfl
        cases hsome
    · intro reason
      rw [hsome, Option.some.injEq, Except.error.injEq]

/-- A result has the reason of any other from which it was made. -/
theorem refusal_of_unnamed {result : Except Malformed Node}
    {read : Except Malformed (List (String × Node))} (h : read = result.map unnamed) :
    refusal? result = refusal? read := by
  rw [h, refusal_map]

theorem refusal_decodeDocument (document : Element) :
    refusal? (decodeDocument document) = (documentDefects document).head? := by
  rw [refusal_of_unnamed (decodeDocument_eq_read document).symm, readFirst, documentDefects]
  rcases document.find? "methodResponse" with _ | response
  · rfl
  · exact refusal_read .response response

/-- **The first defect settles the outcome.**  A `value`, a typed element and a document are decoded
    if and only if nothing that is read of them is defective, and otherwise they are refused for
    the first defect, whatever other defects there are.  First is what comes first in the
    document. -/
theorem settled_by_defects (e : Element) :
    Settled (decodeValue e) (defects .value e) ∧
    Settled (decodeTyped e) (defects .typed e) ∧
    Settled (decodeDocument e) (documentDefects e) ∧
    ∀ role, List.Sublist ((walk role e).map Prod.snd) e.inOrder := by
  refine ⟨settled_of_refusal ?_, settled_of_refusal ?_, settled_of_refusal ?_, ?_⟩
  · rw [refusal_of_unnamed (read_value e), refusal_read]
  · rw [refusal_of_unnamed (read_typed e), refusal_read]
  · exact refusal_decodeDocument e
  · intro role
    exact walk_sublist role e

/-- An item without content comes before a member without a value, and both before what follows. -/
example :
    defects .value ⟨"value", "", [⟨"array", "", [⟨"data", "", [.empty "value",
      ⟨"value", "", [⟨"struct", "", [⟨"member", "", [⟨"name", "x", []⟩]⟩, .empty "member"]⟩]⟩,
      ⟨"value", "", [.empty "array"]⟩]⟩]⟩]⟩ =
    [.emptyArrayItem, .missingMemberValue "x", .missingMemberValue "", .missingData] := by
  decide +kernel

end XmlRpc.Reply
