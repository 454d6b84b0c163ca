/-
  XmlRpc/Proofs/EndTags.lean
  ==========================
  **What the end tags of a text are, and what hangs on how their names are cut.**

  White space at the end of an end tag is no part of the name that it closes.  The
  reader takes off what separates the parts of a tag; another reader may take off all
  white space of ASCII, which is the form feed besides.  `Element.parseBy` is the reader
  with a set of characters of its own, and for the separators it is `Element.parse`
  (`parseBy_isSeparator`).

  Two things do not depend on the set.  The tree of a text that is accepted is the tree
  of all its events, whatever its end tags say (`ofEvents_of_parseBy`).  And two readers
  agree on a text if they agree on the names in its end tags (`parseBy_congr`); in a text
  that was written, these are the names of its elements (`endTags_written`).
-/
import XmlRpc.Proofs.Content

namespace XmlRpc.Markup

/-- The white space of ASCII. -/
def isAsciiBlank (c : Char) : Bool :=
  isSeparator c || c = '\x0c'

theorem mem_markupChars_of_isAsciiBlank {c : Char} (h : isAsciiBlank c = true) :
    c ∈ markupChars := by
  simp only [isAsciiBlank, isSeparator, Bool.or_eq_true, decide_eq_true_eq] at h
  rcases h with (((rfl | rfl) | rfl) | rfl) | rfl <;> simp [markupChars]

/-! ### Readers that differ in end tags -/

namespace Transcript

/-- `stepNames` with the characters that are taken off an end tag. -/
def stepNamesBy (blank : Char → Bool) (names : List String) :
    Event → Except ReadError (List String)
  | .closing written =>
    match names with
    | [] => .error (.mismatchedEnd "" written)
    | innermost :: rest =>
      if withoutEnd blank written = innermost then .ok rest
      else .error (.mismatchedEnd innermost (withoutEnd blank written))
  | e => stepNames names e

/-- `checkNames` with the characters that are taken off an end tag. -/
def checkNamesBy (blank : Char → Bool) (names : List String) :
    List Event → Option ReadError → Transcript
  | [], failure => ⟨[], failure⟩
  | e :: rest, failure =>
    match stepNamesBy blank names e with
    | .error error => ⟨[], some error⟩
    | .ok names => cons e (checkNamesBy blank names rest failure)

/-- `ofDocument` with the characters that are taken off an end tag. -/
def ofDocumentBy (blank : Char → Bool) (text : List Char) : Transcript :=
  let scanned := scan (afterMark text)
  checkNamesBy blank [] scanned.events scanned.failure

theorem stepNamesBy_isSeparator (names : List String) (e : Event) :
    stepNamesBy isSeparator names e = stepNames names e := by
  cases e with
  | closing written => cases names <;> rfl
  | _ => rfl

theorem checkNamesBy_isSeparator (names : List String) (events : List Event)
    (failure : Option ReadError) :
    checkNamesBy isSeparator names events failure = checkNames names events failure := by
  induction events generalizing names with
  | nil => rfl
  | cons e rest ih =>
    rw [checkNamesBy, checkNames, stepNamesBy_isSeparator]
    rcases stepNames names e with error | after
    · rfl
    · exact congrArg (cons e) (ih after)

/-- What is taken off matters in end tags only. -/
theorem checkNamesBy_congr {blank blank' : Char → Bool} {events : List Event}
    (h : ∀ written, .closing written ∈ events → withoutEnd blank written = withoutEnd blank' written)
    (names : List String) (failure : Option ReadError) :
    checkNamesBy blank names events failure = checkNamesBy blank' names events failure := by
  induction events generalizing names with
  | nil => rfl
  | cons e rest ih =>
    have hstep : stepNamesBy blank names e = stepNamesBy blank' names e := by
      cases e with
      | closing written =>
        cases names <;> simp only [stepNamesBy, h written List.mem_cons_self]
      | _ => rfl
    have hrest := ih fun written hwritten => h written (List.mem_cons_of_mem _ hwritten)
    rw [checkNamesBy, checkNamesBy, hstep]
    rcases stepNamesBy blank' names e with error | after
    · rfl
    · exact congrArg (cons e) (hrest after)

/-- If all end tags fit, nothing was cut. -/
theorem checkNamesBy_eq_of_failure {blank : Char → Bool} {names : List String}
    {events : List Event} {failure : Option ReadError}
    (h : (checkNamesBy blank names events failure).failure = none) :
    (checkNamesBy blank names events failure).events = events := by
  induction events generalizing names with
  | nil => rfl
  | cons e rest ih =>
    rw [checkNamesBy] at h ⊢
    rcases hstep : stepNamesBy blank names e with error | after
    · rw [hstep] at h
      cases h
    · rw [hstep] at h
      exact congrArg (List.cons e) (ih h)

end Transcript

namespace Element

/-- The root element of a document, for a reader that takes the `blank` characters off the end of
    an end tag. -/
def parseBy (blank : Char → Bool) (document : String) : Except DocumentError Element :=
  ofTranscript (Transcript.ofDocumentBy blank document.toList)

theorem parseBy_isSeparator (document : String) : parseBy isSeparator document = parse document := by
  rw [parseBy, Transcript.ofDocumentBy, Transcript.checkNamesBy_isSeparator]
  rfl

/-- **The tree of an accepted text is the tree of all its events.** -/
theorem ofEvents_of_parseBy {blank : Char → Bool} {document : String} {root : Element}
    (h : parseBy blank document = .ok root) :
    ofEvents (Transcript.scan (afterMark document.toList)).events = .ok root := by
  rw [parseBy, ofTranscript] at h
  split at h
  · next hfailure =>
    rwa [Transcript.ofDocumentBy, Transcript.checkNamesBy_eq_of_failure hfailure] at h
  · next error hfailure =>
    rcases hfeed : Builder.start.feedAll
      (Transcript.ofDocumentBy blank document.toList).events with cause | b <;>
      rw [hfeed] at h <;> cases h

end Element

/-! ### The end tags of a text -/

/-- What is written in each end tag of a text has the property. -/
def EndTags (P : String → Prop) (text : List Char) : Prop :=
  ∀ written, Event.closing written ∈ (Transcript.scan text).events → P written

/-- **Readers that agree on the names in the end tags agree on the text.** -/
theorem Element.parseBy_congr {blank blank' : Char → Bool} {document : String}
    (h : EndTags (fun written => withoutEnd blank written = withoutEnd blank' written)
      (afterMark document.toList)) :
    parseBy blank document = parseBy blank' document := by
  rw [parseBy, parseBy, Transcript.ofDocumentBy, Transcript.ofDocumentBy,
    Transcript.checkNamesBy_congr h]

section EndTags

variable {P : String → Prop} {text rest : List Char} {e : Event}

theorem endTags_nil : EndTags P [] := by
  intro written h
  rw [Transcript.scan_of_done rfl] at h
  cases h

theorem endTags_of_next (h : Event.next text = .event e rest) :
    EndTags P text ↔ (∀ written, e = .closing written → P written) ∧ EndTags P rest := by
  simp only [EndTags, Transcript.scan_of_event h, Transcript.cons, List.mem_cons]
  constructor
  · exact fun hall => ⟨fun w hw => hall w (Or.inl hw.symm), fun w hw => hall w (Or.inr hw)⟩
  · rintro ⟨hfirst, hrest⟩ w (hw | hw)
    · exact hfirst w hw.symm
    · exact hrest w hw

/-- Text before the next markup has no end tags. -/
theorem endTags_dropWhile : EndTags P (text.dropWhile (· ≠ '<')) ↔ EndTags P text := by
  rcases text with _ | ⟨c, text⟩
  · rfl
  · by_cases hc : c = '<'
    · rw [List.dropWhile_cons_of_neg (by simpa using hc)]
    · have hnext : Event.next (c :: text) = readText (c :: text) := if_neg hc
      rw [endTags_of_next hnext]
      exact (and_iff_right fun w hw => nomatch hw).symm

theorem endTags_escapeChars (content : String) :
    EndTags P (escapeChars content ++ rest) ↔ EndTags P rest := by
  rw [← endTags_dropWhile, List.dropWhile_append_of_pos (ne_of_mem_escapeChars content),
    endTags_dropWhile]

end EndTags

/-! ### The end tags of a written text -/

namespace Piece

section Bare

variable {P : String → Prop}

mutual

/-- **The end tags of a written piece are those of its elements.** -/
theorem endTags_written (hP : ∀ name, P name → IsTagName name) (p : Piece) (h : p.Bare P)
    {rest : List Char} (hrest : EndTags P rest) : EndTags P (p.written ++ rest) := by
  cases p with
  | text content =>
    rw [written]
    exact (endTags_escapeChars content).2 hrest
  | element name attributes pieces =>
    rw [Bare] at h
    obtain ⟨rfl, hname, hpieces⟩ := h
    have hclosing : EndTags P ('<' :: '/' :: (name.toList ++ '>' :: rest)) := by
      rw [endTags_of_next (next_closing (hP name hname).angle rest)]
      refine ⟨?_, hrest⟩
      intro w hw
      cases hw
      exact hname
    rw [written_element_append, endTags_of_next (next_opening (hP name hname) (by simp) _)]
    exact ⟨by simp, endTags_writtenAll hP pieces hpieces hclosing⟩
  | _ => simp [Bare] at h

theorem endTags_writtenAll (hP : ∀ name, P name → IsTagName name) (pieces : List Piece)
    (h : AllBare P pieces) {rest : List Char} (hrest : EndTags P rest) :
    EndTags P (writtenAll pieces ++ rest) := by
  cases pieces with
  | nil => exact hrest
  | cons p pieces =>
    rw [AllBare] at h
    rw [writtenAll, List.append_assoc]
    exact endTags_written hP p h.1 (endTags_writtenAll hP pieces h.2 hrest)

end

theorem endTags_document (hP : ∀ name, P name → IsTagName name) {name : String}
    {attributes : List (String × String)} {pieces : List Piece}
    (h : (element name attributes pieces).Bare P) :
    EndTags P (afterMark (element name attributes pieces).written) := by
  have hmark : afterMark (element name attributes pieces).written =
      (element name attributes pieces).written := by
    rw [written, afterMark_of_markup]
  have hwritten := endTags_written hP _ h endTags_nil
  rwa [hmark, ← List.append_nil (written _)]

end Bare

end Piece

end XmlRpc.Markup
