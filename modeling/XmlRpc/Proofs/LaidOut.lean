/-
  XmlRpc/Proofs/LaidOut.lean
  ==========================
  **However a document is laid out, it is read as its tree.**

  A document is more than its root.  Comments, instructions and loose text may stand
  before and after it, the mark of the byte order among them, and its elements may
  have attributes, comments and literal sections, and two forms if they are empty.

  Nothing around the root reaches the tree (`read_asides`), so `parse_surrounded` has
  the limit of `read_written`: the start tags that are open at once.  A writer sees the
  tree and not the tags.  In a tree that is no deeper than 512, no more tags are open,
  and so every document with plain names is read as what it was written from
  (`parse_laidOut`).
-/
import XmlRpc.Proofs.Content

namespace XmlRpc.Markup

/-! ### Around the root -/

/-- What may stand before and after the root. -/
inductive Aside where
  | text (content : String)
  | comment (content : String)
  | instruction (content : String)
deriving Repr

namespace Aside

/-- Loose text is written as it is: its references are never looked at. -/
def written : Aside → List Char
  | text content => content.toList
  | comment content => (Piece.comment content).written
  | instruction content => (Piece.instruction content).written

def WellFormed : Aside → Prop
  | text content => '<' ∉ content.toList
  | comment content => (Piece.comment content).WellFormed
  | instruction content => (Piece.instruction content).WellFormed

end Aside

/-- A root with what stands before and after it. -/
def laidOut (before : List Aside) (root : Piece) (after : List Aside) : String :=
  String.ofList (before.flatMap Aside.written ++ (root.written ++ after.flatMap Aside.written))

namespace Builder

variable {b : Builder}

/-- With nothing open, text is dropped up to the next tag. -/
theorem read_dropWhile (hb : b.opened = []) (text : List Char) :
    b.read (text.dropWhile (· ≠ '<')) = b.read text := by
  rcases text with _ | ⟨c, text⟩
  · rfl
  · by_cases hc : c = '<'
    · rw [List.dropWhile_cons_of_neg (by simpa using hc)]
    · have hnext : Event.next (c :: text) = .event
          (.text (unescape (String.ofList ((c :: text).takeWhile (· ≠ '<')))))
          ((c :: text).dropWhile (· ≠ '<')) := by
        rw [Event.next, if_neg hc, readText]
      have htaken : b.accept (.text (unescape (String.ofList
          ((c :: text).takeWhile (· ≠ '<'))))) = .ok b := if_pos hb
      rw [read_of_event hnext, htaken]
      rfl

theorem read_loose (hb : b.opened = []) {loose : List Char} (h : '<' ∉ loose)
    (rest : List Char) : b.read (loose ++ rest) = b.read rest := by
  have hdrop : (loose ++ rest).dropWhile (· ≠ '<') = rest.dropWhile (· ≠ '<') := by
    apply List.dropWhile_append_of_pos
    intro c hc
    rw [decide_eq_true_eq]
    rintro rfl
    exact h hc
  rw [← read_dropWhile hb (loose ++ rest), hdrop, read_dropWhile hb]

theorem read_aside (hb : b.opened = []) {a : Aside} (ha : a.WellFormed) (rest : List Char) :
    b.read (a.written ++ rest) = b.read rest := by
  have hroom : b.opened.length ≤ maxDepth := by
    rw [hb]
    exact Nat.zero_le _
  cases a with
  | text content => exact read_loose hb ha rest
  | comment content =>
    have hread := read_written (.comment content) ha (by rintro _ ⟨⟩) b hroom rest
    rwa [if_pos (by simpa [Piece.depth] using hroom)] at hread
  | instruction content =>
    have hread := read_written (.instruction content) ha (by rintro _ ⟨⟩) b hroom rest
    rwa [if_pos (by simpa [Piece.depth] using hroom)] at hread

/-- **Nothing around the root is seen.** -/
theorem read_asides (hb : b.opened = []) {asides : List Aside} (h : ∀ a ∈ asides, a.WellFormed)
    (rest : List Char) : b.read (asides.flatMap Aside.written ++ rest) = b.read rest := by
  induction asides with
  | nil => rfl
  | cons a asides ih =>
    rw [List.flatMap_cons, List.append_assoc, read_aside hb (h a List.mem_cons_self)]
    exact ih fun a' ha' => h a' (List.mem_cons_of_mem a ha')

/-- The mark of the byte order is loose text like any other. -/
theorem read_afterMark (text : List Char) : start.read (afterMark text) = start.read text := by
  rcases text with _ | ⟨c, text⟩
  · rfl
  · by_cases hc : c = '\ufeff'
    · subst hc
      have hmark : '<' ∉ ['\ufeff'] := by decide
      exact (read_loose rfl hmark text).symm
    · simp [afterMark, hc]

theorem take_root {root : Piece} {e : Element} (h : root.elements = [e]) :
    start.take root = .ok ⟨[], some e⟩ := by
  cases root with
  | selfClosed name attributes =>
    rw [Piece.elements] at h
    cases h
    rfl
  | element name attributes pieces =>
    rw [Piece.elements] at h
    cases h
    rfl
  | _ => simp [Piece.elements] at h

end Builder

namespace Element

variable {before after : List Aside} {root : Piece} {e : Element}

/-- **A document with what stands around its root, and the exact limit.** -/
theorem parse_surrounded (hbefore : ∀ a ∈ before, a.WellFormed)
    (hafter : ∀ a ∈ after, a.WellFormed) (hroot : root.WellFormed) (he : root.elements = [e]) :
    parse (laidOut before root after) =
      if root.depth ≤ maxDepth then .ok e else .error .tooDeep := by
  have hmarkup : ∀ content, root ≠ .text content := by
    rintro content rfl
    simp [Piece.elements] at he
  have hread := Builder.read_written root hroot hmarkup Builder.start (Nat.zero_le _)
    (after.flatMap Aside.written)
  rw [parse_eq_read, Builder.read_afterMark, laidOut, String.toList_ofList,
    Builder.read_asides rfl hbefore, hread, Builder.take_root he]
  change (if 0 + root.depth ≤ maxDepth then
    (Builder.mk [] (some e)).read (after.flatMap Aside.written) else _) = _
  rw [Nat.zero_add, ← List.append_nil (after.flatMap Aside.written),
    Builder.read_asides rfl hafter, Builder.read_nil]
  rfl

end Element

/-! ### Depth as a writer sees it -/

namespace Element

theorem levels_eq (depth : Nat) (e : Element) :
    e.levels depth = (depth, e) :: levelsIn (depth + 1) e.children := by
  cases e
  rw [levels]

theorem levelsIn_append (depth : Nat) (front back : List Element) :
    levelsIn depth (front ++ back) = levelsIn depth front ++ levelsIn depth back := by
  induction front with
  | nil => rfl
  | cons child front ih => rw [List.cons_append, levelsIn, levelsIn, ih, List.append_assoc]

theorem levelsIn_singleton (depth : Nat) (e : Element) : levelsIn depth [e] = e.levels depth := by
  rw [levelsIn, levelsIn, List.append_nil]

end Element

namespace Piece

open Element (levels_eq levelsIn levelsIn_append levelsIn_singleton)

mutual

/-- In a tree that stays within a limit, no more start tags are open than the limit allows. -/
theorem depth_le_of_levels {limit : Nat} (p : Piece) (above : Nat) (habove : above ≤ limit)
    (h : ∀ level ∈ levelsIn (above + 1) p.elements, level.1 ≤ limit) :
    above + p.depth ≤ limit := by
  cases p with
  | element name attributes pieces =>
    rw [elements, levelsIn_singleton, levels_eq] at h
    have hhere : above + 1 ≤ limit := h (above + 1, _) List.mem_cons_self
    have hinside := depthAll_le_of_levels pieces (above + 1) hhere
      fun level hlevel => h level (List.mem_cons_of_mem _ hlevel)
    rw [depth]
    omega
  | _ => simpa [depth] using habove

theorem depthAll_le_of_levels {limit : Nat} (pieces : List Piece) (above : Nat)
    (habove : above ≤ limit)
    (h : ∀ level ∈ levelsIn (above + 1) (elementsAll pieces), level.1 ≤ limit) :
    above + depthAll pieces ≤ limit := by
  cases pieces with
  | nil => exact habove
  | cons p pieces =>
    rw [elementsAll, levelsIn_append] at h
    have hfirst := depth_le_of_levels p above habove
      fun level hlevel => h level (List.mem_append_left _ hlevel)
    have hrest := depthAll_le_of_levels pieces above habove
      fun level hlevel => h level (List.mem_append_right _ hlevel)
    rw [depthAll]
    omega

end

end Piece

/-! ### Plain documents -/

/-- A name that is not empty and holds no ASCII blank, no quote and no mark of a tag. -/
structure PlainName (name : String) : Prop where
  nonempty : name ≠ ""
  plain : ∀ c ∈ name.toList, c ∉ markupChars

/-- An attribute with a plain key and a value that can stand between double quotes. -/
def PlainAttribute (a : String × String) : Prop :=
  PlainName a.1 ∧ '\x22' ∉ a.2.toList

theorem isAttribute_of_plain {a : String × String} (h : PlainAttribute a) : IsAttribute a := by
  obtain ⟨hkey, hvalue⟩ := h
  have hname := isTagName_of_plain hkey.plain
  exact ⟨hname.angle, hname.quotes, hvalue⟩

namespace Piece

mutual

/-- What a writer has to see to: plain names, and no end mark inside what it ends. -/
def Plain : Piece → Prop
  | text _ => True
  | literal content => ¬[']', ']', '>'] <:+: content.toList
  | comment content => ¬['-', '-', '>'] <:+: content.toList
  | instruction content => content ≠ "" ∧ '>' ∉ content.toList
  | selfClosed name attributes => PlainName name ∧ ∀ a ∈ attributes, PlainAttribute a
  | element name attributes pieces =>
    PlainName name ∧ (∀ a ∈ attributes, PlainAttribute a) ∧ AllPlain pieces

def AllPlain : List Piece → Prop
  | [] => True
  | p :: rest => Plain p ∧ AllPlain rest

end

mutual

theorem wellFormed_of_plain (p : Piece) (h : p.Plain) : p.WellFormed := by
  cases p with
  | text content => exact wellFormed_text content
  | selfClosed name attributes =>
    rw [Plain] at h
    rw [WellFormed]
    refine ⟨isTagName_of_plain h.1.plain, h.1.nonempty, ?_⟩
    intro a ha
    exact isAttribute_of_plain (h.2 a ha)
  | element name attributes pieces =>
    rw [Plain] at h
    rw [WellFormed]
    refine ⟨isTagName_of_plain h.1.plain, ?_, allWellFormed_of_plain pieces h.2.2⟩
    intro a ha
    exact isAttribute_of_plain (h.2.1 a ha)
  | _ => simpa only [Plain, WellFormed] using h

theorem allWellFormed_of_plain (pieces : List Piece) (h : AllPlain pieces) :
    AllWellFormed pieces := by
  cases pieces with
  | nil => trivial
  | cons p pieces =>
    rw [AllPlain] at h
    rw [AllWellFormed]
    exact ⟨wellFormed_of_plain p h.1, allWellFormed_of_plain pieces h.2⟩

end

end Piece

namespace Element

/-- **Every written document is read as its tree.**  A plain root, with attributes, comments,
    instructions, literal sections and text in any order inside its elements, and with comments,
    instructions and loose text around it, is read as the tree of the root, if that is no deeper
    than 512. -/
theorem parse_laidOut {before after : List Aside} {root : Piece} {e : Element}
    (hbefore : ∀ a ∈ before, a.WellFormed) (hafter : ∀ a ∈ after, a.WellFormed)
    (hroot : root.Plain) (he : root.elements = [e])
    (hdepth : ∀ level ∈ e.levels 1, level.1 ≤ maxDepth) :
    parse (laidOut before root after) = .ok e := by
  have hlevels : ∀ level ∈ levelsIn (0 + 1) root.elements, level.1 ≤ maxDepth := by
    intro level hlevel
    rw [he, levelsIn_singleton] at hlevel
    exact hdepth level hlevel
  have hfits := Piece.depth_le_of_levels root 0 (Nat.zero_le _) hlevels
  rw [Nat.zero_add] at hfits
  rw [parse_surrounded hbefore hafter (Piece.wellFormed_of_plain root hroot) he, if_pos hfits]

theorem parse_laidOut_markup :
    parse (laidOut [.text "\ufeff & ", .instruction "xml version=\"1.0\"", .comment ">-"]
        (.element "a" [("k", "'/>")]
          [.text "<", .comment "->", .literal "]]&gt;", .selfClosed "b" [("c", ">")],
           .instruction "?", .text "&amp;", .element "b" [] []])
        [.text "\n>"]) =
      .ok ⟨"a", "<]]&gt;&amp;", [.empty "b", .empty "b"]⟩ := by
  have hletters : ∀ name ∈ ["a", "b", "c", "k"], PlainName name := by
    intro name hname
    constructor
    · rintro rfl
      simp at hname
    · revert name
      simp [markupChars]
  apply parse_laidOut
  · simp [Aside.WellFormed, Piece.WellFormed]
    decide
  · simp [Aside.WellFormed]
  · simp [Piece.Plain, Piece.AllPlain, PlainAttribute, hletters]
    decide
  · rfl
  · decide

end Element

end XmlRpc.Markup
