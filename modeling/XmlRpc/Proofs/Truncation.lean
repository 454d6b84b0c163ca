/-
  XmlRpc/Proofs/Truncation.lean
  =============================
  **A reply that is cut off is rejected or read as the whole.**

  A text may be accepted although it ends too early: an end tag and an
  instruction need no `>` at the end of the text, and a `<` with nothing after it
  is not looked at.  No such cut can change what was read.  A document is accepted
  only once its root is complete, and from then on the root stays what it is
  (`root_read`), whatever follows.

    * `root_accept`, `root_read`: the root of the top level is never replaced;
    * `read_append`: of two texts, one the beginning of the other, both accepted,
      the trees are the same;
    * `answer_of_cut`: and so is the answer to the call.
-/
import XmlRpc.Call
import XmlRpc.Proofs.Continuation

namespace XmlRpc.Markup

namespace Builder

/-! ### The root stays -/

theorem root_of_finish {b : Builder} {root : Element} (h : b.finish = .ok root) :
    b.root = some root := by
  rcases b with ⟨_ | ⟨innermost, outer⟩, _ | complete⟩ <;> cases h
  rfl

theorem root_attach {b b' : Builder} {e root : Element} (hroot : b.root = some root)
    (h : b.attach e = .ok b') : b'.root = some root := by
  rcases b with ⟨_ | ⟨parent, outer⟩, _ | complete⟩ <;> cases h <;> cases hroot
  rfl

@[simp] theorem root_appendText (b : Builder) (piece : String) :
    (b.appendText piece).root = b.root := by
  rcases b with ⟨_ | ⟨innermost, outer⟩, root⟩ <;> rfl

theorem root_of_accept_text {b b' : Builder} {content : Except EntityError String}
    (h : b.accept (.text content) = .ok b') : b'.root = b.root := by
  rcases eq_of_accept_text h with rfl | ⟨piece, rfl⟩
  · rfl
  · exact root_appendText b piece

/-- **No event replaces the root.** -/
theorem root_accept {b b' : Builder} {e : Event} {root : Element} (hroot : b.root = some root)
    (h : b.accept e = .ok b') : b'.root = some root := by
  cases e with
  | opening name =>
    rw [accept_opening] at h
    split at h
    · cases h
    · cases h
      exact hroot
  | selfClosed name => exact root_attach hroot h
  | closing written =>
    obtain ⟨innermost, outer, -, -, hattach⟩ := closing_of_accept h
    exact root_attach (b := ⟨outer, b.root⟩) hroot hattach
  | text content => rw [root_of_accept_text h, hroot]
  | literal piece =>
    cases h
    rw [root_appendText, hroot]
  | ignored =>
    cases h
    exact hroot

/-- A root that is complete is the tree of the document, whatever follows. -/
theorem root_read {b : Builder} {text : List Char} {root e : Element}
    (hroot : b.root = some root) (h : b.read text = .ok e) : e = root := by
  revert hroot
  refine read_induction (motive := fun b _ => b.root = some root → e = root) ?_ ?_ b text h
  · intro b text hnext hfinish hroot
    rw [root_of_finish hfinish] at hroot
    exact Option.some.inj hroot
  · intro b text event rest b' hnext haccept hread ih hroot
    exact ih (root_accept hroot haccept)

/-! ### Two texts -/

/-- **What both a text and its beginning are accepted for is the same tree.** -/
theorem read_append {b : Builder} {text more : List Char} {e e' : Element}
    (h : b.read text = .ok e) (hmore : b.read (text ++ more) = .ok e') : e' = e := by
  revert hmore
  refine read_induction
    (motive := fun b text => b.read (text ++ more) = .ok e' → e' = e) ?_ ?_ b text h
  · intro b text hnext hfinish hmore
    exact root_read (root_of_finish hfinish) hmore
  · intro b text event rest b' hnext haccept hread ih hmore
    rcases next_append hnext more with hsame | ⟨rfl, hcut, -⟩
    · rw [read_of_event hsame, haccept] at hmore
      exact ih hmore
    · -- the event is the last of the shorter text, so the root is complete after it
      rw [read_nil] at hread
      have hroot' : b'.root = some e := root_of_finish hread
      cases hcut with
      | text content =>
        rw [root_of_accept_text haccept] at hroot'
        exact root_read hroot' hmore
      | ignored =>
        cases haccept
        exact root_read hroot' hmore
      | closing written written' rest hlonger =>
        -- both end tags close the innermost open element, or are refused
        rw [read_of_event hlonger] at hmore
        rcases haccept' : b.accept (.closing written') with error | b''
        · rw [haccept'] at hmore
          cases hmore
        · rw [haccept'] at hmore
          obtain ⟨innermost, outer, hopened, -, hattach⟩ := closing_of_accept haccept
          obtain ⟨innermost', outer', hopened', -, hattach'⟩ := closing_of_accept haccept'
          rw [hopened] at hopened'
          cases hopened'
          rw [hattach] at hattach'
          cases hattach'
          exact root_read hroot' hmore

end Builder

/-- The beginning of a text has the byte-order mark of the text, if it has anything. -/
theorem afterMark_append {text : List Char} (h : text ≠ []) (more : List Char) :
    afterMark (text ++ more) = afterMark text ++ more := by
  cases text with
  | nil => exact (h rfl).elim
  | cons c text =>
    by_cases hc : c = '\ufeff'
    · simp [afterMark, hc]
    · simp [afterMark, hc]

theorem Element.parse_append {cut rest : String} {e e' : Element}
    (hcut : Element.parse cut = .ok e) (h : Element.parse (cut ++ rest) = .ok e') : e' = e := by
  rw [parse_eq_read] at hcut h
  rw [String.toList_append] at h
  by_cases hnil : cut.toList = []
  · rw [hnil, afterMark_nil, Builder.read_nil] at hcut
    cases hcut
  · rw [afterMark_append hnil] at h
    exact Builder.read_append hcut h

end XmlRpc.Markup

namespace XmlRpc

/-! ### The answer to a call -/

/-- The outcome that a document reports. -/
def Response.ofDocument (root : Markup.Element) : Except Malformed Response := do
  match ← Fault.find? root with
  | some found => return .fault found
  | none => return .success (← Reply.decodeDocument root)

/-- A text matters to the outcome by its tree alone, and to the errors by being reported. -/
theorem Response.parse_eq_ofDocument (body : String) :
    Response.parse body =
      (Reply.document body).bind fun root => Reply.reported body (Response.ofDocument root) := by
  unfold Response.parse
  rcases Reply.document body with error | root
  · rfl
  · change (do
      match ← Reply.reported body (Fault.find? root) with
      | some found => return Response.fault found
      | none => return .success (← Reply.reported body (Reply.decodeDocument root))) =
        Reply.reported body (Response.ofDocument root)
    unfold Response.ofDocument
    rcases Fault.find? root with error | _ | found
    · rfl
    · change (do
        return Response.success (← Reply.reported body (Reply.decodeDocument root))) =
          Reply.reported body (do return Response.success (← Reply.decodeDocument root))
      rcases Reply.decodeDocument root with error | node <;> rfl
    · rfl

theorem Call.document_of_answer {body : String} {r : Response} (h : Call.answer body = .ok r) :
    ∃ root, Markup.Element.parse body = .ok root ∧ Response.ofDocument root = .ok r := by
  unfold Call.answer at h
  rw [Response.parse_eq_ofDocument, Reply.document] at h
  rcases hparse : Markup.Element.parse body with error | root
  · rw [hparse] at h
    cases h
  · rw [hparse] at h
    change ((Reply.reported body (Response.ofDocument root)).mapError Call.Error.reply) = _ at h
    rcases houtcome : Response.ofDocument root with error | r'
    · rw [houtcome] at h
      cases h
    · rw [houtcome] at h
      cases h
      exact ⟨root, rfl, houtcome⟩

/-- **Truncation never changes an answer.**  If a reply and the reply cut off at any character are
    both answered, the answers are the same, and so are the trees if both are documents. -/
theorem Call.answer_of_cut (cut rest : String) :
    (∀ r r', Call.answer (cut ++ rest) = .ok r → Call.answer cut = .ok r' → r' = r) ∧
    (∀ e e', Markup.Element.parse (cut ++ rest) = .ok e → Markup.Element.parse cut = .ok e' →
      e' = e) := by
  constructor
  · intro r r' h hcut
    obtain ⟨root, hroot, hr⟩ := Call.document_of_answer h
    obtain ⟨root', hroot', hr'⟩ := Call.document_of_answer hcut
    rw [← Markup.Element.parse_append hroot' hroot, hr] at hr'
    exact (Except.ok.inj hr').symm
  · intro e e' h hcut
    exact (Markup.Element.parse_append hcut h).symm

/-- A reply may lack the last `>`. -/
theorem Call.answer_of_cut_end_tag :
    ∃ cut r r' e e', Call.answer (cut ++ ">") = .ok r ∧ Call.answer cut = .ok r' ∧ r' = r ∧
      Markup.Element.parse (cut ++ ">") = .ok e ∧ Markup.Element.parse cut = .ok e' ∧ e' = e := by
  have hwhole : Call.answer ("<methodResponse><params><param><value>7</value></param></params>" ++
      "</methodResponse" ++ ">") = .ok (.success (.string "7")) := by decide +kernel
  have hcut : Call.answer ("<methodResponse><params><param><value>7</value></param></params>" ++
      "</methodResponse") = .ok (.success (.string "7")) := by decide +kernel
  obtain ⟨e, he, -⟩ := Call.document_of_answer hwhole
  obtain ⟨e', he', -⟩ := Call.document_of_answer hcut
  obtain ⟨hanswer, htree⟩ := Call.answer_of_cut ("<methodResponse><params><param><value>7" ++
    "</value></param></params>" ++ "</methodResponse") ">"
  exact ⟨_, _, _, e, e', hwhole, hcut, hanswer _ _ hwhole hcut, he, he', htree _ _ he he'⟩

end XmlRpc
