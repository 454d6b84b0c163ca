/-
  XmlRpc/Proofs/DocumentOrder.lean
  ================================
  **A search of a tree finds the first element in document order.**

  Document order is said here without a listing.  An element stands at a place, which
  tells at each level which child to go into.  A place is earlier than what lies below
  it, and of two places that part at some element the one in the earlier child is the
  earlier one.  So the places are compared from the left, as words are (`Earlier`).

  The element that a search finds stands at the first place with the name
  (`find?_eq_some_iff`):

    * what is found stands at such a place (`exists_firstAt`), by induction on the tree;
    * what stands at such a place is found (`find?_of_firstAt`), by induction on the
      place: the children before it cannot have an element with the name, or one of
      their places would be earlier.

  Where an element does not have the name itself, the search goes on in its children,
  and what comes after the first child with an answer does not matter
  (`find?_of_children`).
-/
import XmlRpc.Proofs.Classification

namespace XmlRpc.Markup.Element

variable {name : String} {e found : Element}

/-! ### The listing -/

mutual

/-- The depth at which a tree is listed does not matter to its elements. -/
theorem map_snd_levels (depth : Nat) (e : Element) :
    (e.levels depth).map Prod.snd = e.inOrder := by
  cases e with
  | mk own text children =>
    rw [inOrder, levels, levels, List.map_cons, List.map_cons,
      map_snd_levelsIn (depth + 1) children, map_snd_levelsIn 2 children]

theorem map_snd_levelsIn (depth : Nat) (trees : List Element) :
    (levelsIn depth trees).map Prod.snd = trees.flatMap inOrder := by
  cases trees with
  | nil => rfl
  | cons tree rest =>
    rw [levelsIn, List.map_append, map_snd_levels depth tree, map_snd_levelsIn depth rest,
      List.flatMap_cons]

end

/-- An element is listed before what is in it, and a child with all that is in it before the next
    child. -/
theorem inOrder_eq (e : Element) : e.inOrder = e :: e.children.flatMap inOrder := by
  rw [inOrder, levels_eq, List.map_cons, map_snd_levelsIn]

/-! ### The search of the children -/

theorem findIn?_eq_findSome? (name : String) (trees : List Element) :
    findIn? name trees = trees.findSome? (find? name) := by
  induction trees with
  | nil => rfl
  | cons tree rest ih =>
    rw [findIn?, List.findSome?_cons, ih]
    cases find? name tree <;> rfl

/-- A search stops at the element itself, or at the first child with an answer. -/
theorem find?_eq (name : String) (e : Element) :
    e.find? name = if e.name = name then some e else e.children.findSome? (find? name) := by
  rw [← findIn?_eq_findSome?]
  cases e with
  | mk own text children => rw [find?]

/-- **The first child with an answer has the answer.**  What comes after it does not matter. -/
theorem find?_of_children {before after : List Element} {early : Element}
    (hchildren : e.children = before ++ early :: after) (hname : e.name ≠ name)
    (hbefore : ∀ sibling ∈ before, sibling.find? name = none)
    (hearly : early.find? name = some found) : e.find? name = some found := by
  rw [find?_eq, if_neg hname, List.findSome?_eq_some_iff]
  exact ⟨before, early, after, hchildren, hearly, hbefore⟩

/-! ### Places -/

/-- The element at a place.  The place says at each level which child to go into, counted from
    zero. -/
def at? : List Nat → Element → Option Element
  | [], e => some e
  | index :: place, e => e.children[index]?.bind (at? place)

@[simp] theorem at?_nil (e : Element) : e.at? [] = some e := rfl

theorem at?_cons (index : Nat) (place : List Nat) (e : Element) :
    e.at? (index :: place) = e.children[index]?.bind (at? place) := rfl

theorem at?_of_child {index : Nat} {child : Element} (h : e.children[index]? = some child)
    (place : List Nat) : e.at? (index :: place) = child.at? place := by
  rw [at?_cons, h, Option.bind_some]

/-- Document order of places.  A place is earlier than those below it, and the places in a child
    are earlier than those in the children after it. -/
def Earlier (place other : List Nat) : Prop :=
  List.Lex (· < ·) place other

/-- At a place stands an element with a name, and at no earlier one. -/
structure FirstAt (name : String) (e : Element) (place : List Nat) (found : Element) : Prop where
  here : e.at? place = some found
  called : found.name = name
  first : ∀ earlier x, Earlier earlier place → e.at? earlier = some x → x.name ≠ name

/-! ### What is found -/

/-- Where a search finds nothing, no element has the name. -/
theorem name_ne_of_find? (h : e.find? name = none) (place : List Nat) {x : Element}
    (hx : e.at? place = some x) : x.name ≠ name := by
  induction place generalizing e with
  | nil =>
    cases hx
    intro hname
    rw [find?_eq, if_pos hname] at h
    cases h
  | cons index place ih =>
    obtain ⟨child, hchild, hx⟩ := Option.bind_eq_some_iff.1 hx
    rw [find?_eq] at h
    split at h
    · cases h
    · exact ih (List.findSome?_eq_none_iff.1 h child (List.mem_of_getElem? hchild)) hx

/-- **What a search finds stands at the first place with the name.** -/
theorem exists_firstAt (e : Element) (h : e.find? name = some found) :
    ∃ place, FirstAt name e place found := by
  cases e with
  | mk own text children =>
    rw [find?_eq] at h
    split at h
    · next hname =>
      cases h
      refine ⟨[], rfl, hname, ?_⟩
      rintro earlier x ⟨⟩
    · next hname =>
      obtain ⟨before, child, after, hchildren, hfound, hbefore⟩ := List.findSome?_eq_some_iff.1 h
      change children = before ++ child :: after at hchildren
      have hmem : child ∈ children := by simp [hchildren]
      have hchild : children[before.length]? = some child := by simp [hchildren]
      obtain ⟨place, hplace⟩ := exists_firstAt child hfound
      refine ⟨before.length :: place, ?_, hplace.called, ?_⟩
      · rw [at?_of_child hchild]
        exact hplace.here
      · -- an earlier place is the element's own, in a child before this one, or earlier in it
        intro earlier x hearlier hx
        cases hearlier with
        | nil =>
          cases hx
          exact hname
        | cons hearlier =>
          rw [at?_of_child hchild] at hx
          exact hplace.first _ x hearlier hx
        | rel hindex =>
          obtain ⟨sibling, hsibling, hx⟩ := Option.bind_eq_some_iff.1 hx
          rw [hchildren, List.getElem?_append_left hindex] at hsibling
          exact name_ne_of_find? (hbefore sibling (List.mem_of_getElem? hsibling)) _ hx

/-- **What stands at the first place with the name is found.** -/
theorem find?_of_firstAt {place : List Nat} (h : FirstAt name e place found) :
    e.find? name = some found := by
  induction place generalizing e with
  | nil =>
    obtain rfl : e = found := Option.some.inj h.here
    rw [find?_eq, if_pos h.called]
  | cons index place ih =>
    obtain ⟨child, hchild, hfound⟩ := Option.bind_eq_some_iff.1 h.here
    have hname : e.name ≠ name := h.first [] e .nil rfl
    have hinner : FirstAt name child place found := by
      refine ⟨hfound, h.called, fun earlier x hearlier hx => ?_⟩
      exact h.first (index :: earlier) x (.cons hearlier) (by rw [at?_of_child hchild, hx])
    have hbefore : ∀ sibling ∈ e.children.take index, sibling.find? name = none := by
      intro sibling hsibling
      obtain ⟨earlier, hearlier⟩ := List.mem_iff_getElem?.1 hsibling
      rw [List.getElem?_take] at hearlier
      split at hearlier
      · next hindex =>
        rcases hanswer : sibling.find? name with _ | x
        · rfl
        · -- an answer in a child before this one would stand at an earlier place
          obtain ⟨inner, hx⟩ := exists_firstAt sibling hanswer
          have hat : e.at? (earlier :: inner) = some x := by rw [at?_of_child hearlier, hx.here]
          exact absurd hx.called (h.first _ x (.rel hindex) hat)
      · cases hearlier
    have hchildren : e.children = e.children.take index ++ child :: e.children.drop (index + 1) := by
      obtain ⟨hindex, rfl⟩ := List.getElem?_eq_some_iff.1 hchild
      rw [← List.drop_eq_getElem_cons hindex, List.take_append_drop]
    exact find?_of_children hchildren hname hbefore (ih hinner)

theorem find?_eq_some_iff : e.find? name = some found ↔ ∃ place, FirstAt name e place found :=
  ⟨exists_firstAt e, fun ⟨_, hplace⟩ => find?_of_firstAt hplace⟩

theorem find?_eq_none_iff :
    e.find? name = none ↔ ∀ place x, e.at? place = some x → x.name ≠ name := by
  constructor
  · intro h place x hx
    exact name_ne_of_find? h place hx
  · intro h
    rcases hanswer : e.find? name with _ | found
    · rfl
    · obtain ⟨place, hplace⟩ := exists_firstAt e hanswer
      exact absurd hplace.called (h place found hplace.here)

/-! ### The searches of a reply -/

/-- The fault of a document depends on the element that the search finds, and on nothing else. -/
theorem fault_of_find? {e' : Element} (h : e.find? "fault" = e'.find? "fault") :
    Fault.find? e = Fault.find? e' := by
  rw [Fault.find?, h, Fault.find?]

/-- The node of a document depends on the envelope that the search finds, and on nothing else. -/
theorem decodeDocument_of_find? {e' : Element}
    (h : e.find? "methodResponse" = e'.find? "methodResponse") :
    Reply.decodeDocument e = Reply.decodeDocument e' := by
  rw [Reply.decodeDocument, h, Reply.decodeDocument]

/-- **A search finds the first element in document order.**  A tree is listed with each element
    before what is in it, and each child with all that is in it before the next child.  What is
    found is the first in this list with the name, and stands at the first place with it; nothing
    is found exactly if no element has the name.  So the first child with the name in it, at any
    depth, has the answer, whatever comes after it, and the fault or the envelope of a document is
    taken from there. -/
theorem first_in_document_order (name : String) (e : Element) :
    e.inOrder = e :: e.children.flatMap inOrder ∧
    e.find? name = (e.inOrder.find? fun x => x.name = name) ∧
    (∀ found, e.find? name = some found ↔ ∃ place, FirstAt name e place found) ∧
    (e.find? name = none ↔ ∀ place x, e.at? place = some x → x.name ≠ name) ∧
    (∀ before early after, e.children = before ++ early :: after → e.name ≠ name →
      (∀ sibling ∈ before, ∀ place x, sibling.at? place = some x → x.name ≠ name) →
      (∃ place x, early.at? place = some x ∧ x.name = name) →
      ∃ found, early.find? name = some found ∧ e.find? name = some found ∧
        (name = "fault" → Fault.find? e = Fault.find? early) ∧
        (name = "methodResponse" → Reply.decodeDocument e = Reply.decodeDocument early)) := by
  refine ⟨inOrder_eq e, find?_eq_inOrder name e, fun found => find?_eq_some_iff,
    find?_eq_none_iff, ?_⟩
  rintro before early after hchildren hname hbefore ⟨place, x, hx, hxname⟩
  rcases hearly : early.find? name with _ | found
  · exact absurd hxname (name_ne_of_find? hearly place hx)
  · have hfound : e.find? name = some found :=
      find?_of_children hchildren hname
        (fun sibling hsibling => find?_eq_none_iff.2 (hbefore sibling hsibling)) hearly
    refine ⟨found, rfl, hfound, ?_, ?_⟩
    · rintro rfl
      exact fault_of_find? (hfound.trans hearly.symm)
    · rintro rfl
      exact decodeDocument_of_find? (hfound.trans hearly.symm)

/-- A `fault` three levels down comes before one at the top of a later child. -/
theorem first_in_document_order_deep :
    let deep : Element := ⟨"a", "", [⟨"b", "", [⟨"fault", "1", []⟩]⟩]⟩
    let root : Element := ⟨"r", "", [.empty "c", deep, ⟨"fault", "2", []⟩]⟩
    root.find? "fault" = some ⟨"fault", "1", []⟩ ∧
    (∃ place, FirstAt "fault" root place ⟨"fault", "1", []⟩) ∧
    Fault.find? root = Fault.find? deep := by
  intro deep root
  obtain ⟨-, -, hplace, -, hchild⟩ := first_in_document_order "fault" root
  have hbefore : ∀ sibling ∈ [empty "c"], ∀ place x, sibling.at? place = some x →
      x.name ≠ "fault" := by
    intro sibling hsibling
    obtain rfl := List.mem_singleton.1 hsibling
    exact find?_eq_none_iff.1 rfl
  obtain ⟨found, hdeep, hroot, hfault, -⟩ :=
    hchild [.empty "c"] deep [⟨"fault", "2", []⟩] rfl (by decide) hbefore ⟨[0, 0], _, rfl, rfl⟩
  obtain rfl : ⟨"fault", "1", []⟩ = found := Option.some.inj hdeep
  exact ⟨hroot, (hplace _).1 hroot, hfault rfl⟩

end XmlRpc.Markup.Element
