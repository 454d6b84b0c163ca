/-
  XmlRpc/Proofs/Appended.lean
  ===========================
  **What is appended to a text cannot undo what was read.**

  Two facts about a text and one that is appended to it.  A text that nests too deep
  stays too deep (`read_append_of_tooDeep`): the error comes with a start tag, and a
  start tag that was read is never cut short.  And a document that ends in `>` is
  over where it ends (`read_append_of_closed`): the reader is between two pieces, the
  builder has nothing open and holds the root.  From there another document is read
  as it is read alone, but only until its own root is complete, which is then one
  too many (`read_second`).  So two documents are never taken for one of them.
-/
import XmlRpc.Proofs.Classification
import XmlRpc.Proofs.LaidOut

namespace XmlRpc.Markup

namespace Builder

/-! ### The depth stays exceeded -/

theorem finish_ne_tooDeep (b : Builder) : b.finish ≠ .error .tooDeep := by
  rcases b with ⟨_ | ⟨innermost, outer⟩, _ | root⟩ <;> simp [finish]

theorem attach_ne_tooDeep (b : Builder) (e : Element) : b.attach e ≠ .error .tooDeep := by
  rcases b with ⟨_ | ⟨parent, outer⟩, _ | root⟩ <;> simp [attach]

/-- Only a start tag goes too deep. -/
theorem opening_of_tooDeep {b : Builder} {event : Event}
    (h : b.accept event = .error .tooDeep) : ∃ name, event = .opening name := by
  cases event with
  | opening name => exact ⟨name, rfl⟩
  | selfClosed name => exact absurd h (attach_ne_tooDeep b _)
  | closing written =>
    rcases b with ⟨_ | ⟨innermost, outer⟩, root⟩
    · simp [accept_closing_nil] at h
    · rw [accept_closing_cons] at h
      split at h
      · exact absurd h (attach_ne_tooDeep _ innermost)
      · cases h
  | text content =>
    simp only [accept_text, feed] at h
    split at h
    · cases h
    · cases content <;> cases h
  | literal piece => cases h
  | ignored => cases h

/-- **A text that nests too deep nests too deep whatever follows.** -/
theorem read_append_of_tooDeep {b : Builder} {text : List Char}
    (h : b.read text = .error .tooDeep) (more : List Char) :
    b.read (text ++ more) = .error .tooDeep := by
  rcases hnext : Event.next text with _ | error | ⟨event, rest⟩
  · rw [read_of_done hnext] at h
    exact absurd h (finish_ne_tooDeep b)
  · rw [read_of_failed hnext] at h
    cases h
  · rw [read_of_event hnext] at h
    rcases haccept : b.accept event with error | b'
    · rw [haccept] at h
      cases h
      obtain ⟨name, rfl⟩ := opening_of_tooDeep haccept
      rcases next_append hnext more with hsame | ⟨-, hcut, -⟩
      · rw [read_of_event hsame, haccept]
        rfl
      · cases hcut
    · rw [haccept] at h
      change b'.read rest = _ at h
      rcases next_append hnext more with hsame | ⟨rfl, -, -⟩
      · rw [read_of_event hsame, haccept]
        exact read_append_of_tooDeep h more
      · rw [read_nil] at h
        exact absurd h (finish_ne_tooDeep b')
termination_by text.length
decreasing_by exact length_of_next hnext

/-! ### The end of a document -/

theorem eq_of_finish {b : Builder} {root : Element} (h : b.finish = .ok root) :
    b = ⟨[], some root⟩ := by
  rcases b with ⟨_ | ⟨innermost, outer⟩, _ | complete⟩ <;> cases h
  rfl

theorem next_loose {loose : List Char} (hne : loose ≠ []) (hloose : '<' ∉ loose) :
    ∃ content, Event.next loose = .event (.text content) [] := by
  obtain ⟨c, rest, rfl⟩ := List.exists_cons_of_ne_nil hne
  have hc : c ≠ '<' := by
    rintro rfl
    simp at hloose
  have hrest : (c :: rest).dropWhile (· ≠ '<') = [] := by
    rw [List.dropWhile_eq_nil_iff]
    intro d hd
    rw [decide_eq_true_eq]
    rintro rfl
    exact hloose hd
  exact ⟨_, by rw [Event.next, if_neg hc, readText, hrest]⟩

/-- Loose text that ends a document stands after its root. -/
theorem eq_of_read_loose {b : Builder} {loose : List Char} {root : Element}
    (hloose : '<' ∉ loose) (h : b.read loose = .ok root) : b = ⟨[], some root⟩ := by
  by_cases hnil : loose = []
  · rw [hnil, read_nil] at h
    exact eq_of_finish h
  · obtain ⟨content, hnext⟩ := next_loose hnil hloose
    rw [read_of_event hnext] at h
    rcases haccept : b.accept (.text content) with error | b'
    · rw [haccept] at h
      cases h
    · rw [haccept] at h
      have hb' : b' = ⟨[], some root⟩ := eq_of_finish (read_nil b' ▸ h)
      rcases eq_of_accept_text haccept with rfl | ⟨piece, rfl⟩
      · exact hb'
      · rcases b with ⟨_ | ⟨innermost, outer⟩, complete⟩
        · exact hb'
        · cases hb'

/-- **A document that ends in `>` is over.**  What follows is read with nothing open and the root
    complete. -/
theorem read_append_of_closed {b : Builder} {text : List Char} {root : Element}
    (h : b.read text = .ok root) (hend : ∀ c ∈ text.getLast?, c = '>') (more : List Char) :
    b.read (text ++ more) = read ⟨[], some root⟩ more := by
  revert hend
  refine read_induction (motive := fun b text => (∀ c ∈ text.getLast?, c = '>') →
    b.read (text ++ more) = read ⟨[], some root⟩ more) ?last ?step b text h
  case last =>
    intro b text hnext hfinish hend
    rcases text_of_next_done hnext with rfl | rfl
    · rw [eq_of_finish hfinish]
      rfl
    · exact absurd (hend '<' rfl) (by decide)
  case step =>
    intro b text event rest b' hnext haccept hread ih hend
    rcases next_append hnext more with hsame | ⟨rfl, -, hmark⟩
    · rw [read_of_event hsame, haccept]
      apply ih
      intro c hc
      obtain ⟨piece, rfl⟩ := suffix_of_next hnext
      exact hend c (by simp_all [List.getLast?_append])
    · -- the piece has no mark of its own, so it is a run of text with the `>` in it
      have hloose : '<' ∉ text := by
        rcases hlast : text.getLast? with _ | c
        · simp_all
        · obtain rfl := hend c hlast
          exact hmark.resolve_right (not_not.2 (List.mem_of_getLast? hlast))
      have hwhole : b.read text = .ok root := by
        rw [read_of_event hnext, haccept]
        exact hread
      obtain rfl := eq_of_read_loose hloose hwhole
      exact read_loose rfl hloose more

/-! ### A second root -/

variable {b b' : Builder} {root : Element}

/-- The builder with the root of another document. -/
def withRoot (b : Builder) (root : Element) : Builder :=
  { b with root := some root }

@[simp] theorem appendText_withRoot (b : Builder) (root : Element) (piece : String) :
    (b.withRoot root).appendText piece = (b.appendText piece).withRoot root := by
  rcases b with ⟨_ | ⟨innermost, outer⟩, complete⟩ <;> rfl

/-- What an event does to a builder without a root, and to the same builder with one: the same, or
    it completes a root, which is one too many for the other. -/
def OneTooMany (root : Element) (b' : Builder) (other : Except DocumentError Builder) : Prop :=
  (b'.root = none ∧ other = .ok (b'.withRoot root)) ∨
    ∃ e, b'.root = some e ∧ other = .error (.illFormed (.secondRoot e.name))

theorem attach_second {e : Element} (hb : b.root = none) (h : b.attach e = .ok b') :
    OneTooMany root b' ((b.withRoot root).attach e) := by
  rcases b with ⟨_ | ⟨parent, outer⟩, _ | complete⟩
  · cases h
    exact Or.inr ⟨e, rfl, rfl⟩
  · cases hb
  · cases h
    exact Or.inl ⟨rfl, rfl⟩
  · cases hb

theorem accept_second {event : Event} (hb : b.root = none) (h : b.accept event = .ok b') :
    OneTooMany root b' ((b.withRoot root).accept event) := by
  cases event with
  | opening name =>
    rw [accept_opening] at h
    split at h
    · cases h
    · next hroom =>
      cases h
      exact Or.inl ⟨hb, if_neg hroom⟩
  | selfClosed name => exact attach_second hb h
  | closing written =>
    obtain ⟨innermost, outer, hopened, hname, hattach⟩ := closing_of_accept h
    rcases b with ⟨opened, complete⟩
    subst hopened
    have hclosed := accept_closing_cons innermost outer (some root) written
    rw [if_pos hname] at hclosed
    rw [withRoot, hclosed]
    exact attach_second (b := ⟨outer, complete⟩) hb hattach
  | text content =>
    simp only [accept_text, feed] at h
    split at h
    · next hopened =>
      cases h
      exact Or.inl ⟨hb, if_pos hopened⟩
    · next hopened =>
      cases content with
      | error error => cases h
      | ok piece =>
        cases h
        refine Or.inl ⟨by rw [root_appendText, hb], ?_⟩
        rw [← appendText_withRoot]
        exact if_neg hopened
  | literal piece =>
    cases h
    rw [accept_literal, appendText_withRoot]
    exact Or.inl ⟨by rw [root_appendText, hb], rfl⟩
  | ignored =>
    cases h
    exact Or.inl ⟨hb, rfl⟩

/-- **A document after another one has a root too many.** -/
theorem read_second {text : List Char} {e : Element} (hb : b.root = none)
    (h : b.read text = .ok e) :
    (b.withRoot root).read text = .error (.illFormed (.secondRoot e.name)) := by
  revert hb
  refine read_induction (motive := fun b text => b.root = none →
    (b.withRoot root).read text = .error (.illFormed (.secondRoot e.name))) ?last ?step b text h
  case last =>
    intro b text hnext hfinish hb
    rw [root_of_finish hfinish] at hb
    cases hb
  case step =>
    intro b text event rest b' hnext haccept hread ih hb
    have hsecond : OneTooMany root b' ((b.withRoot root).accept event) := accept_second hb haccept
    rw [read_of_event hnext]
    rcases hsecond with ⟨hb', hsame⟩ | ⟨complete, hb', hrefused⟩
    · rw [hsame]
      exact ih hb'
    · rw [hrefused, root_read hb' hread]
      rfl

end Builder

namespace Element

theorem parse_eq_start_read (document : String) :
    parse document = Builder.start.read document.toList := by
  rw [parse_eq_read, Builder.read_afterMark]

theorem parse_append_of_tooDeep {cut : String} (h : parse cut = .error .tooDeep) (rest : String) :
    parse (cut ++ rest) = .error .tooDeep := by
  rw [parse_eq_start_read] at h ⊢
  rw [String.toList_append]
  exact Builder.read_append_of_tooDeep h _

theorem parse_glued {first second : String} {root e : Element} (h : parse first = .ok root)
    (hend : first.toList.getLast? = some '>') (h' : parse second = .ok e) :
    parse (first ++ second) = .error (.illFormed (.secondRoot e.name)) := by
  rw [parse_eq_start_read] at h h' ⊢
  rw [String.toList_append, Builder.read_append_of_closed h (by simp [hend])]
  exact Builder.read_second rfl h'

end Element

end XmlRpc.Markup

namespace XmlRpc

open Markup (Element)

/-! ### The answers -/

/-- **Nothing that follows undoes the limit of the depth.**  Where a text nests too deep, so does
    every text that begins with it, for each way to read a reply, and the whole text is reported. -/
theorem Call.answer_append_of_tooDeep {cut : String} (h : Element.parse cut = .error .tooDeep)
    (rest : String) :
    Element.parse (cut ++ rest) = .error .tooDeep ∧
    Reply.decode (cut ++ rest) = .error ⟨.malformed .tooDeep, cut ++ rest⟩ ∧
    Response.parse (cut ++ rest) = .error ⟨.malformed .tooDeep, cut ++ rest⟩ ∧
    Call.answer (cut ++ rest) = .error (.reply ⟨.malformed .tooDeep, cut ++ rest⟩) := by
  have hparse := Element.parse_append_of_tooDeep h rest
  have hresponse := Response.parse_of_error hparse
  refine ⟨hparse, ?_, hresponse, ?_⟩
  · rw [Reply.decode, Reply.document, hparse]
    rfl
  · rw [Call.answer, hresponse]
    rfl

/-- What follows is neither a fault nor an end tag too many. -/
theorem Call.answer_append_of_tooDeep_fault :
    Element.parse (Markup.nestedText 513) = .error .tooDeep ∧
    Call.answer (Markup.nestedText 513 ++ "<fault/></a>") =
      .error (.reply ⟨.malformed .tooDeep, Markup.nestedText 513 ++ "<fault/></a>"⟩) := by
  have hdeep : Element.parse (Markup.nestedText 513) = .error .tooDeep := by
    rw [Element.parse_nestedText, if_neg (by decide)]
  obtain ⟨-, -, -, hanswer⟩ := Call.answer_append_of_tooDeep hdeep "<fault/></a>"
  exact ⟨hdeep, hanswer⟩

/-- **Two documents in one text are never taken for one of them.**  If the first ends in `>`, the
    root of the second is one too many, whatever stands around the two, and the text has no
    answer. -/
theorem Call.answer_append_of_documents {first second : String} {root e : Element}
    (h : Element.parse first = .ok root) (hend : first.toList.getLast? = some '>')
    (h' : Element.parse second = .ok e) :
    Element.parse (first ++ second) = .error (.illFormed (.secondRoot e.name)) ∧
    (Markup.IllFormed.secondRoot e.name).message = "second root element <" ++ e.name ++ ">" ∧
    Call.answer (first ++ second) =
      .error (.reply ⟨.xml (.secondRoot e.name), first ++ second⟩) := by
  have hparse := Element.parse_glued h hend h'
  refine ⟨hparse, rfl, ?_⟩
  rw [Call.answer, Response.parse_of_error hparse]
  rfl

/-- The first document ends in loose text with a `>`; the second begins with the mark of the byte
    order and lacks its own last `>`. -/
theorem Call.answer_append_of_documents_loose :
    Element.parse "<a>1</a>-->" = .ok ⟨"a", "1", []⟩ ∧
    Element.parse "\ufeff<b><c/></b" = .ok ⟨"b", "", [.empty "c"]⟩ ∧
    Element.parse ("<a>1</a>-->" ++ "\ufeff<b><c/></b") =
      .error (.illFormed (.secondRoot "b")) ∧
    (Markup.IllFormed.secondRoot "b").message = "second root element <b>" ∧
    Call.answer ("<a>1</a>-->" ++ "\ufeff<b><c/></b") =
      .error (.reply ⟨.xml (.secondRoot "b"), "<a>1</a>-->" ++ "\ufeff<b><c/></b"⟩) := by
  have hfirst : Element.parse "<a>1</a>-->" = .ok ⟨"a", "1", []⟩ := by
    with_unfolding_all rfl
  have hsecond : Element.parse "\ufeff<b><c/></b" = .ok ⟨"b", "", [.empty "c"]⟩ := by
    with_unfolding_all rfl
  obtain ⟨hparse, hmessage, hanswer⟩ :=
    Call.answer_append_of_documents hfirst (by decide) hsecond
  exact ⟨hfirst, hsecond, hparse, hmessage, hanswer⟩

end XmlRpc
