/-
  XmlRpc/Proofs/Nesting.lean
  ==========================
  **How deep the elements of a document lie.**

  A reader refuses a start tag when 512 elements are open.  It does not count the tag
  of an element without content, which opens nothing; so such an element may lie one
  level below the limit, and a document may hold one at depth 513
  (`parse_below_limit`).  Nothing else does: an element with a text or a child lies at
  depth 512 at most, and none lies deeper than 513 (`level_of_parse`).

  The invariant is `Builder.Shallow`.  The open elements are a stack, so the depth of
  each of them is how many are left from it on, and what was put into it lies below.
-/
import XmlRpc.Proofs.LaidOut
import XmlRpc.Proofs.Truncation

namespace XmlRpc.Markup

/-! ### Levels -/

namespace Element

theorem levelsIn_appendChild (depth : Nat) (e child : Element) :
    levelsIn depth (e.appendChild child).children =
      levelsIn depth e.children ++ child.levels depth := by
  rw [appendChild, levelsIn_append, levelsIn_singleton]

/-- Within the limit, or with nothing in it and one level below the limit. -/
def Allowed (level : Nat × Element) : Prop :=
  level.1 ≤ maxDepth ∨ level.1 = maxDepth + 1 ∧ level.2 = .empty level.2.name

theorem allowed_empty {depth : Nat} (h : depth ≤ maxDepth + 1) (name : String) :
    ∀ level ∈ (empty name).levels depth, Allowed level := by
  intro level hlevel
  obtain rfl : level = (depth, empty name) := by simpa [levels_eq, empty, levelsIn] using hlevel
  rcases Nat.lt_or_eq_of_le h with hlt | heq
  · exact Or.inl (Nat.le_of_lt_succ hlt)
  · exact Or.inr ⟨heq, rfl⟩

end Element

namespace Builder

open Element (levelsIn levels_eq levelsIn_appendChild Allowed allowed_empty)

/-! ### The invariant -/

/-- What stands in the open elements is allowed.  The innermost of `k` open elements is at depth
    `k`, and its children are one level below it. -/
def AllAllowed : List Element → Prop
  | [] => True
  | e :: outer =>
    (∀ level ∈ levelsIn (outer.length + 2) e.children, Allowed level) ∧ AllAllowed outer

/-- No more elements are open than may be, and everything that was read is allowed. -/
structure Shallow (b : Builder) : Prop where
  count : b.opened.length ≤ maxDepth
  opened : AllAllowed b.opened
  root : ∀ e ∈ b.root, ∀ level ∈ e.levels 1, Allowed level

theorem Shallow.start : Shallow start where
  count := Nat.zero_le _
  opened := trivial
  root := by
    intro e he
    cases he

variable {b b' : Builder}

theorem Shallow.attach (hb : b.Shallow) {e : Element}
    (he : ∀ level ∈ e.levels (b.opened.length + 1), Allowed level) (h : b.attach e = .ok b') :
    b'.Shallow := by
  rcases b with ⟨_ | ⟨parent, outer⟩, root⟩
  · cases root with
    | some complete => cases h
    | none =>
      cases h
      refine ⟨Nat.zero_le _, trivial, ?_⟩
      rintro _ ⟨⟩
      exact he
  · cases h
    refine ⟨hb.count, ⟨?_, hb.opened.2⟩, hb.root⟩
    intro level hlevel
    rw [levelsIn_appendChild, List.mem_append] at hlevel
    rcases hlevel with hold | hnew
    · exact hb.opened.1 level hold
    · exact he level hnew

theorem Shallow.appendText (hb : b.Shallow) (piece : String) : (b.appendText piece).Shallow := by
  rcases b with ⟨_ | ⟨innermost, outer⟩, root⟩
  · exact hb
  · exact ⟨hb.count, hb.opened, hb.root⟩

/-- **One event keeps the depth.** -/
theorem Shallow.accept (hb : b.Shallow) {event : Event} (h : b.accept event = .ok b') :
    b'.Shallow := by
  cases event with
  | opening name =>
    rw [accept_opening] at h
    split at h
    · cases h
    · next hroom =>
      cases h
      refine ⟨Nat.lt_of_not_le hroom, ⟨?_, hb.opened⟩, hb.root⟩
      intro level hlevel
      cases hlevel
  | selfClosed name =>
    -- no start tag is counted, so this element may be the one below the limit
    have hdepth : b.opened.length + 1 ≤ maxDepth + 1 := Nat.succ_le_succ hb.count
    exact hb.attach (allowed_empty hdepth name) h
  | closing written =>
    obtain ⟨innermost, outer, hopened, -, hattach⟩ := closing_of_accept h
    rcases b with ⟨opened, root⟩
    subst hopened
    have houter : Shallow ⟨outer, root⟩ :=
      ⟨Nat.le_of_succ_le hb.count, hb.opened.2, hb.root⟩
    refine houter.attach ?_ hattach
    intro level hlevel
    rw [levels_eq] at hlevel
    rcases List.mem_cons.1 hlevel with rfl | hinside
    · exact Or.inl hb.count
    · exact hb.opened.1 level hinside
  | text content =>
    rcases eq_of_accept_text h with rfl | ⟨piece, rfl⟩
    · exact hb
    · exact hb.appendText piece
  | literal piece =>
    cases h
    exact hb.appendText piece
  | ignored =>
    cases h
    exact hb

theorem Shallow.read (hb : b.Shallow) {text : List Char} {root : Element}
    (h : b.read text = .ok root) : ∀ level ∈ root.levels 1, Allowed level := by
  revert hb
  refine read_induction
    (motive := fun b _ => b.Shallow → ∀ level ∈ root.levels 1, Allowed level) ?_ ?_ b text h
  · intro b text _ hfinish hb
    exact hb.root root (root_of_finish hfinish)
  · intro b text event rest b' _ haccept _ ih hb
    exact ih (hb.accept haccept)

end Builder

/-! ### Elements around an element without content -/

/-- A text with `n` elements around one that is written without an end tag. -/
def nestedText : Nat → String
  | 0 => "<b/>"
  | n + 1 => tagged "a" (nestedText n)

/-- The piece that the text is written from. -/
def nestedPiece : Nat → Piece
  | 0 => .selfClosed "b" []
  | n + 1 => .element "a" [] [nestedPiece n]

/-- The tree that the text is read as. -/
def nestedElement : Nat → Element
  | 0 => .empty "b"
  | n + 1 => ⟨"a", "", [nestedElement n]⟩

theorem isTagName_letters : IsTagName "a" ∧ IsTagName "b" := by
  constructor <;> exact isTagName_of_plain (by simp [markupChars])

theorem written_nestedPiece (n : Nat) : (nestedPiece n).written = (nestedText n).toList := by
  induction n with
  | zero => rw [nestedPiece, Piece.written]; rfl
  | succ n ih =>
    rw [nestedPiece, nestedText]
    exact Piece.written_around "a" ih

theorem wellFormed_nestedPiece (n : Nat) : (nestedPiece n).WellFormed := by
  induction n with
  | zero =>
    rw [nestedPiece, Piece.WellFormed]
    exact ⟨isTagName_letters.2, by decide, by simp⟩
  | succ n ih =>
    exact Piece.wellFormed_element isTagName_letters.1 (Piece.allWellFormed_singleton ih)

theorem depth_nestedPiece (n : Nat) : (nestedPiece n).depth = n := by
  induction n with
  | zero => simp [nestedPiece, Piece.depth]
  | succ n ih => rw [nestedPiece, Piece.depth_around, ih]

theorem elements_nestedPiece (n : Nat) : (nestedPiece n).elements = [nestedElement n] := by
  induction n with
  | zero => rw [nestedPiece, Piece.elements]; rfl
  | succ n ih =>
    have htext : (nestedPiece n).content = "" := by cases n <;> rfl
    simp [nestedPiece, nestedElement, Piece.elements, Piece.elementsAll, Piece.contentAll, ih,
      htext]

theorem mem_levels_nestedElement (n depth : Nat) :
    (depth + n, Element.empty "b") ∈ (nestedElement n).levels depth := by
  induction n generalizing depth with
  | zero => simp [nestedElement, Element.levels_eq]
  | succ n ih =>
    have hinner := ih (depth + 1)
    rw [Nat.add_right_comm] at hinner
    rw [nestedElement, Element.levels, Element.levelsIn_singleton]
    exact List.mem_cons_of_mem _ hinner

/-! ### Documents -/

namespace Element

/-- As many elements may be around it as may be open. -/
theorem parse_nestedText (n : Nat) :
    parse (nestedText n) =
      if n ≤ maxDepth then .ok (nestedElement n) else .error .tooDeep := by
  have htext : laidOut [] (nestedPiece n) [] = nestedText n := by
    simp [laidOut, written_nestedPiece]
  rw [← htext, parse_surrounded (by simp) (by simp) (wellFormed_nestedPiece n)
    (elements_nestedPiece n), depth_nestedPiece]

/-- **The depth of a document.**  Whatever tags a document uses, an element of it lies at depth 512
    at most, except that one with nothing in it may lie at depth 513. -/
theorem level_of_parse {document : String} {root : Element} (h : parse document = .ok root) :
    ∀ level ∈ root.levels 1,
      level.1 ≤ maxDepth ∨ level.1 = maxDepth + 1 ∧ level.2 = .empty level.2.name := by
  rw [parse_eq_read] at h
  exact Builder.Shallow.start.read h

/-- An element at depth 513 is accepted. -/
theorem parse_below_limit :
    ∃ root, parse (nestedText 512) = .ok root ∧ ∃ level ∈ root.levels 1, maxDepth < level.1 := by
  refine ⟨nestedElement 512, ?_, (1 + 512, .empty "b"), mem_levels_nestedElement 512 1, by decide⟩
  rw [parse_nestedText, if_pos (by decide)]

theorem level_of_parse_nestedText :
    parse (nestedText 512) = .ok (nestedElement 512) ∧
      ∀ level ∈ (nestedElement 512).levels 1,
        level.1 ≤ maxDepth ∨ level.1 = maxDepth + 1 ∧ level.2 = .empty level.2.name := by
  have hparse : parse (nestedText 512) = .ok (nestedElement 512) := by
    rw [parse_nestedText, if_pos (by decide)]
  exact ⟨hparse, level_of_parse hparse⟩

end Element

end XmlRpc.Markup
