/-
  XmlRpc/Proofs/Content.lean
  ==========================
  **A written document is read as the tree it was written from.**

  `Piece` is what a writer may put into a document: running text, literal
  sections, comments, instructions, and elements with attributes, which nest.
  `Piece.written` is the text of a piece, `Piece.content` and `Piece.elements`
  what it leaves in the element around it.  The main statement, `read_written`,
  gives the exact limit: a reader that has `k` elements open takes the piece as it
  is meant if `k + depth ≤ 512`, and otherwise refuses it for its depth and for
  nothing else.

  The induction is on the pieces.  Two runs of text side by side are one event for
  the reader, so the statement about a list of pieces carries the text that was
  written before it and not read yet (`pending` in `read_writtenAll`).
-/
import XmlRpc.Markup.Tag
import XmlRpc.Proofs.WrittenPieces

namespace XmlRpc.Markup

/-! ### Pieces and what they mean -/

/-- What may be written inside an element. -/
inductive Piece where
  | text (content : String)
  | literal (content : String)
  | comment (content : String)
  | instruction (content : String)
  | selfClosed (name : String) (attributes : List (String × String))
  | element (name : String) (attributes : List (String × String)) (pieces : List Piece)
deriving Repr, Inhabited

namespace Piece

mutual

/-- The text of a piece in a document. -/
def written : Piece → List Char
  | text content => escapeChars content
  | literal content => '<' :: '!' :: (literalKeyword ++ (content.toList ++ [']', ']', '>']))
  | comment content => '<' :: '!' :: '-' :: '-' :: (content.toList ++ ['-', '-', '>'])
  | instruction content => '<' :: '?' :: (content.toList ++ ['?', '>'])
  | selfClosed name attributes => '<' :: (tagContent name attributes ++ ['/', '>'])
  | element name attributes pieces =>
    '<' :: (tagContent name attributes ++ '>' ::
      (writtenAll pieces ++ '<' :: '/' :: (name.toList ++ ['>'])))

def writtenAll : List Piece → List Char
  | [] => []
  | p :: rest => written p ++ writtenAll rest

end

mutual

/-- What is asked of the texts in a piece for it to end where it is meant to. -/
def WellFormed : Piece → Prop
  | text _ => True
  | literal content => ¬[']', ']', '>'] <:+: content.toList
  | comment content => ¬['-', '-', '>'] <:+: content.toList
  | instruction content => content ≠ "" ∧ '>' ∉ content.toList
  | selfClosed name attributes => IsTagName name ∧ name ≠ "" ∧ ∀ a ∈ attributes, IsAttribute a
  | element name attributes pieces =>
    IsTagName name ∧ (∀ a ∈ attributes, IsAttribute a) ∧ AllWellFormed pieces

def AllWellFormed : List Piece → Prop
  | [] => True
  | p :: rest => WellFormed p ∧ AllWellFormed rest

end

mutual

/-- How many start tags of a piece are open at once.  The tag of an element without content opens
    nothing. -/
def depth : Piece → Nat
  | element _ _ pieces => depthAll pieces + 1
  | _ => 0

def depthAll : List Piece → Nat
  | [] => 0
  | p :: rest => max (depth p) (depthAll rest)

end

/-- The text that a piece puts into the element around it. -/
def content : Piece → String
  | text content => content
  | literal content => content
  | _ => ""

def contentAll : List Piece → String
  | [] => ""
  | p :: rest => content p ++ contentAll rest

mutual

/-- The elements that a piece puts into the element around it. -/
def elements : Piece → List Element
  | selfClosed name _ => [.empty name]
  | element name _ pieces => [⟨name, contentAll pieces, elementsAll pieces⟩]
  | _ => []

def elementsAll : List Piece → List Element
  | [] => []
  | p :: rest => elements p ++ elementsAll rest

end

theorem written_element_append (name : String) (attributes : List (String × String))
    (pieces : List Piece) (rest : List Char) :
    (element name attributes pieces).written ++ rest =
      '<' :: (tagContent name attributes ++ '>' ::
        (writtenAll pieces ++ '<' :: '/' :: (name.toList ++ '>' :: rest))) := by
  simp [written]

theorem written_eq_cons {p : Piece} (h : ∀ content, p ≠ .text content) :
    ∃ rest, p.written = '<' :: rest := by
  cases p with
  | text content => exact (h content rfl).elim
  | literal content => exact ⟨_, by rw [written]⟩
  | comment content => exact ⟨_, by rw [written]⟩
  | instruction content => exact ⟨_, by rw [written]⟩
  | selfClosed name attributes => exact ⟨_, by rw [written]⟩
  | element name attributes pieces => exact ⟨_, by rw [written]⟩

end Piece

namespace Builder

open Piece (writtenAll AllWellFormed depthAll contentAll elementsAll)

/-- Takes a whole piece into the tree. -/
def take (b : Builder) : Piece → Except DocumentError Builder
  | .text content => .ok (b.appendText content)
  | .literal content => .ok (b.appendText content)
  | .comment _ => .ok b
  | .instruction _ => .ok b
  | .selfClosed name _ => b.attach (.empty name)
  | .element name _ pieces => b.attach ⟨name, contentAll pieces, elementsAll pieces⟩

/-- Inside an element nothing keeps a piece from being taken. -/
theorem take_cons (e : Element) (outer : List Element) (root : Option Element) (p : Piece) :
    take ⟨e :: outer, root⟩ p =
      .ok ⟨⟨e.name, e.text ++ p.content, e.children ++ p.elements⟩ :: outer, root⟩ := by
  obtain ⟨name, text, children⟩ := e
  cases p <;> simp [take, appendText, attach, Element.appendText, Element.appendChild,
    Piece.content, Piece.elements]

/-! ### Reading what was written -/

/-- Escaped text before markup goes into the innermost element, also if there is none of it. -/
theorem read_escaped (e : Element) (outer : List Element) (root : Option Element)
    (pending : String) (rest : List Char) :
    read ⟨e :: outer, root⟩ (escapeChars pending ++ '<' :: rest) =
      read ⟨⟨e.name, e.text ++ pending, e.children⟩ :: outer, root⟩ ('<' :: rest) := by
  by_cases hne : pending = ""
  · obtain ⟨name, text, children⟩ := e
    subst hne
    simp
  · rw [read_of_event (next_text hne rest)]
    rfl

/-- A piece that is one event opens nothing. -/
theorem read_of_next {b : Builder} {p : Piece} {e : Event} {rest : List Char}
    (hdepth : p.depth = 0) (hb : b.opened.length ≤ maxDepth)
    (hnext : Event.next (p.written ++ rest) = .event e rest) (haccept : b.accept e = b.take p) :
    b.read (p.written ++ rest) =
      if b.opened.length + p.depth ≤ maxDepth then (b.take p).bind fun b => b.read rest
      else .error .tooDeep := by
  rw [hdepth, Nat.add_zero, if_pos hb, read_of_event hnext, haccept]

/-- The tags of an element around pieces that are read as `inner` says. -/
theorem read_element {name : String} {attributes : List (String × String)} {pieces : List Piece}
    (hname : IsTagName name) (hattributes : ∀ a ∈ attributes, IsAttribute a) (b : Builder)
    (rest : List Char)
    (inner : ∀ more, b.opened.length < maxDepth →
      read ⟨.empty name :: b.opened, b.root⟩ (writtenAll pieces ++ '<' :: more) =
        if b.opened.length + 1 + depthAll pieces ≤ maxDepth then
          read ⟨⟨name, contentAll pieces, elementsAll pieces⟩ :: b.opened, b.root⟩ ('<' :: more)
        else .error .tooDeep) :
    b.read ((Piece.element name attributes pieces).written ++ rest) =
      if b.opened.length + (Piece.element name attributes pieces).depth ≤ maxDepth then
        (b.take (.element name attributes pieces)).bind fun b => b.read rest
      else .error .tooDeep := by
  have hdepth : (Piece.element name attributes pieces).depth = depthAll pieces + 1 := by
    rw [Piece.depth]
  rw [Piece.written_element_append, hdepth, read_of_event (next_opening hname hattributes _),
    accept_opening]
  by_cases hopen : maxDepth ≤ b.opened.length
  · rw [if_pos hopen, if_neg (by omega)]
    rfl
  · rw [if_neg hopen]
    change read ⟨.empty name :: b.opened, b.root⟩ _ = _
    rw [inner _ (by omega)]
    by_cases hfit : b.opened.length + 1 + depthAll pieces ≤ maxDepth
    · rw [if_pos hfit, if_pos (by omega), read_of_event (next_closing hname.angle rest),
        accept_closing_cons, if_pos (closedName_eq_self hname.whole)]
      rfl
    · rw [if_neg hfit, if_neg (by omega)]

mutual

/-- **A written piece is read as it is meant, or is too deep.** -/
theorem read_written (p : Piece) (hp : p.WellFormed) (hmarkup : ∀ content, p ≠ .text content)
    (b : Builder) (hb : b.opened.length ≤ maxDepth) (rest : List Char) :
    b.read (p.written ++ rest) =
      if b.opened.length + p.depth ≤ maxDepth then (b.take p).bind fun b => b.read rest
      else .error .tooDeep := by
  cases p with
  | text content => exact (hmarkup content rfl).elim
  | literal content =>
    rw [Piece.WellFormed] at hp
    have hnext := next_literal hp rest
    exact read_of_next (e := .literal content) (by simp [Piece.depth]) hb
      (by simpa [Piece.written] using hnext) rfl
  | comment content =>
    rw [Piece.WellFormed] at hp
    have hnext := next_comment hp rest
    exact read_of_next (e := .ignored) (by simp [Piece.depth]) hb
      (by simpa [Piece.written] using hnext) rfl
  | instruction content =>
    rw [Piece.WellFormed] at hp
    have hnext := next_instruction hp.1 hp.2 rest
    exact read_of_next (e := .ignored) (by simp [Piece.depth]) hb
      (by simpa [Piece.written] using hnext) rfl
  | selfClosed name attributes =>
    rw [Piece.WellFormed] at hp
    have hnext := next_selfClosed hp.1 hp.2.1 hp.2.2 rest
    exact read_of_next (e := .selfClosed name) (by simp [Piece.depth]) hb
      (by simpa [Piece.written] using hnext) rfl
  | element name attributes pieces =>
    rw [Piece.WellFormed] at hp
    refine read_element hp.1 hp.2.1 b rest fun more hopen => ?_
    have hinner := read_writtenAll pieces hp.2.2 (.empty name) b.opened b.root hopen "" more
    simpa [Element.empty] using hinner

/-- Pieces inside an element, after text that was not read yet. -/
theorem read_writtenAll (pieces : List Piece) (hpieces : AllWellFormed pieces) (e : Element)
    (outer : List Element) (root : Option Element) (houter : outer.length < maxDepth)
    (pending : String) (rest : List Char) :
    read ⟨e :: outer, root⟩ (escapeChars pending ++ (writtenAll pieces ++ '<' :: rest)) =
      if outer.length + 1 + depthAll pieces ≤ maxDepth then
        read ⟨⟨e.name, e.text ++ (pending ++ contentAll pieces),
          e.children ++ elementsAll pieces⟩ :: outer, root⟩ ('<' :: rest)
      else .error .tooDeep := by
  cases pieces with
  | nil =>
    rw [Piece.depthAll, if_pos (by omega), Piece.writtenAll, List.nil_append, read_escaped,
      Piece.contentAll, Piece.elementsAll]
    simp
  | cons p pieces =>
    rw [Piece.AllWellFormed] at hpieces
    obtain ⟨hp, hpieces⟩ := hpieces
    rw [Piece.writtenAll, Piece.depthAll, Piece.contentAll, Piece.elementsAll, List.append_assoc]
    by_cases htext : ∃ content, p = .text content
    · -- text joins what is pending
      obtain ⟨content, rfl⟩ := htext
      rw [Piece.written, ← List.append_assoc, ← escapeChars_append,
        read_writtenAll pieces hpieces e outer root houter (pending ++ content) rest]
      simp [Piece.depth, Piece.content, Piece.elements, String.append_assoc]
    · -- markup ends what is pending
      have hmarkup : ∀ content, p ≠ .text content := fun content h => htext ⟨content, h⟩
      obtain ⟨tail, htail⟩ := Piece.written_eq_cons hmarkup
      have hread := read_written p hp hmarkup
        ⟨⟨e.name, e.text ++ pending, e.children⟩ :: outer, root⟩ houter
        (writtenAll pieces ++ '<' :: rest)
      rw [htail, List.cons_append] at hread ⊢
      rw [read_escaped, hread, take_cons]
      change (if outer.length + 1 + p.depth ≤ maxDepth then
        read ⟨⟨e.name, e.text ++ pending ++ p.content, e.children ++ p.elements⟩ :: outer, root⟩
          (escapeChars "" ++ (writtenAll pieces ++ '<' :: rest)) else _) = _
      rw [read_writtenAll pieces hpieces _ outer root houter "" rest]
      by_cases hfit : outer.length + 1 + max p.depth (depthAll pieces) ≤ maxDepth
      · rw [if_pos hfit, if_pos (by omega), if_pos (by omega)]
        simp [String.append_assoc]
      · rw [if_neg hfit]
        by_cases hfirst : outer.length + 1 + p.depth ≤ maxDepth
        · rw [if_pos hfirst, if_neg (by omega)]
        · rw [if_neg hfirst]

end

end Builder

/-! ### Documents -/

open Piece in
/-- The root of a document, read when nothing was read before. -/
theorem Builder.read_root {name : String} {attributes : List (String × String)}
    {pieces : List Piece} (h : (element name attributes pieces).WellFormed) :
    Builder.start.read (element name attributes pieces).written =
      if (element name attributes pieces).depth ≤ maxDepth then
        .ok ⟨name, contentAll pieces, elementsAll pieces⟩
      else .error .tooDeep := by
  have hread := Builder.read_written (element name attributes pieces) h (by intro _ h; cases h)
    Builder.start (Nat.zero_le _) []
  rw [List.append_nil] at hread
  rw [hread]
  change (if 0 + (element name attributes pieces).depth ≤ maxDepth then
    (Builder.mk [] (some ⟨name, contentAll pieces, elementsAll pieces⟩)).read [] else _) = _
  rw [Nat.zero_add, Builder.read_nil]
  rfl

theorem afterMark_of_markup (rest : List Char) : afterMark ('<' :: rest) = '<' :: rest := rfl

open Piece in
/-- **A document that is one written element is read as that element, or is too deep.** -/
theorem Element.parse_written {document name : String} {attributes : List (String × String)}
    {pieces : List Piece} (h : (element name attributes pieces).WellFormed)
    (hdocument : document.toList = (element name attributes pieces).written) :
    Element.parse document =
      if (element name attributes pieces).depth ≤ maxDepth then
        .ok ⟨name, contentAll pieces, elementsAll pieces⟩
      else .error .tooDeep := by
  have hmark : afterMark document.toList = (element name attributes pieces).written := by
    rw [hdocument, Piece.written, afterMark_of_markup]
  rw [parse_eq_read, hmark, Builder.read_root h]

/-! ### Elements without attributes -/

theorem toList_tagged (name content : String) :
    (tagged name content).toList =
      '<' :: (name.toList ++ '>' :: (content.toList ++ '<' :: '/' :: (name.toList ++ ['>']))) := by
  simp [tagged, openTag, closeTag, String.toList_append]

namespace Piece

theorem writtenAll_singleton (p : Piece) : writtenAll [p] = p.written := by
  rw [writtenAll, writtenAll, List.append_nil]

/-- An element without attributes is written like any tagged content. -/
theorem written_element (name content : String) (pieces : List Piece)
    (h : writtenAll pieces = content.toList) :
    (element name [] pieces).written = (tagged name content).toList := by
  rw [toList_tagged, written, h]
  simp [tagContent, writtenAttributes]

theorem written_text (content : String) : (text content).written = (escape content).toList := by
  rw [written, toList_escape]

theorem written_around (name : String) {content : String} {p : Piece}
    (h : p.written = content.toList) :
    (element name [] [p]).written = (tagged name content).toList :=
  written_element name content _ (by rw [writtenAll_singleton, h])

theorem elementsAll_element (name : String) (pieces rest : List Piece) :
    elementsAll (element name [] pieces :: rest) =
      ⟨name, contentAll pieces, elementsAll pieces⟩ :: elementsAll rest := by
  rw [elementsAll, elements]
  rfl

theorem contentAll_text (content : String) : contentAll [text content] = content := by
  simp [contentAll, Piece.content]

theorem elementsAll_text (content : String) (rest : List Piece) :
    elementsAll (text content :: rest) = elementsAll rest := by
  simp [elementsAll, elements]

theorem depth_around (name : String) (p : Piece) : (element name [] [p]).depth = p.depth + 1 := by
  simp [depth, depthAll]

theorem depth_text (content : String) : (text content).depth = 0 := by
  simp [depth]

theorem wellFormed_text (content : String) : (text content).WellFormed := by
  rw [WellFormed]
  trivial

theorem allWellFormed_singleton {p : Piece} (h : p.WellFormed) : AllWellFormed [p] := by
  rw [AllWellFormed, AllWellFormed]
  exact ⟨h, trivial⟩

theorem wellFormed_element {name : String} (hname : IsTagName name) {pieces : List Piece}
    (h : AllWellFormed pieces) : (element name [] pieces).WellFormed := by
  rw [WellFormed]
  refine ⟨hname, ?_, h⟩
  intro a ha
  cases ha

mutual

/-- A text, or an element without attributes around such pieces, with names of the property. -/
def Bare (P : String → Prop) : Piece → Prop
  | text _ => True
  | element name attributes pieces => attributes = [] ∧ P name ∧ AllBare P pieces
  | _ => False

def AllBare (P : String → Prop) : List Piece → Prop
  | [] => True
  | p :: rest => Bare P p ∧ AllBare P rest

end

section Bare

variable {P : String → Prop}

theorem bare_text (content : String) : (text content).Bare P := by
  rw [Bare]
  trivial

theorem allBare_singleton {p : Piece} (h : p.Bare P) : AllBare P [p] := by
  rw [AllBare, AllBare]
  exact ⟨h, trivial⟩

theorem bare_element {name : String} (hname : P name) {pieces : List Piece}
    (h : AllBare P pieces) : (element name [] pieces).Bare P := by
  rw [Bare]
  exact ⟨rfl, hname, h⟩

mutual

theorem wellFormed_of_bare (hP : ∀ name, P name → IsTagName name) (p : Piece) (h : p.Bare P) :
    p.WellFormed := by
  cases p with
  | text content => exact wellFormed_text content
  | element name attributes pieces =>
    rw [Bare] at h
    obtain ⟨rfl, hname, hpieces⟩ := h
    exact wellFormed_element (hP name hname) (allWellFormed_of_bare hP pieces hpieces)
  | _ => simp [Bare] at h

theorem allWellFormed_of_bare (hP : ∀ name, P name → IsTagName name) (pieces : List Piece)
    (h : AllBare P pieces) : AllWellFormed pieces := by
  cases pieces with
  | nil => trivial
  | cons p rest =>
    rw [AllBare] at h
    rw [AllWellFormed]
    exact ⟨wellFormed_of_bare hP p h.1, allWellFormed_of_bare hP rest h.2⟩

end

end Bare

end Piece

end XmlRpc.Markup
