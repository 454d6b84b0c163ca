/-
  XmlRpc/Proofs/Reading.lean
  ==========================
  **A document read in one pass.**

  `Element.parse` works in three steps: it takes all events off the text, cuts
  them before the first end tag that does not fit, and then builds the tree.
  Facts about a text and what follows it are easier to state of one step after
  the other. `Builder.read` takes the next event, checks it against the elements
  that are open in the builder, feeds it, and goes on with the rest of the text;
  `parse_eq_read` says that this is the same function.

  The reason is that the names the check keeps and the elements the builder
  keeps stay in step (`names_of_feed`), so that one stack serves for both.
-/
import XmlRpc.Markup.Document

namespace XmlRpc.Markup

namespace Builder

/-! ### One event -/

/-- The names of the open elements, the innermost first. -/
def names (b : Builder) : List String :=
  b.opened.map Element.name

/-- Takes an event into the tree if, being an end tag, it closes the innermost open element. -/
def accept (b : Builder) (e : Event) : Except DocumentError Builder :=
  match Transcript.stepNames b.names e with
  | .error error => .error (.illFormed (.unreadable error))
  | .ok _ => b.feed e

@[simp] theorem accept_opening (b : Builder) (name : String) :
    b.accept (.opening name) =
      if maxDepth ≤ b.opened.length then .error .tooDeep
      else .ok { b with opened := .empty name :: b.opened } := rfl

@[simp] theorem accept_selfClosed (b : Builder) (name : String) :
    b.accept (.selfClosed name) = b.attach (.empty name) := rfl

@[simp] theorem accept_text (b : Builder) (content : Except EntityError String) :
    b.accept (.text content) = b.feed (.text content) := rfl

@[simp] theorem accept_literal (b : Builder) (content : String) :
    b.accept (.literal content) = .ok (b.appendText content) := rfl

@[simp] theorem accept_ignored (b : Builder) : b.accept .ignored = .ok b := rfl

theorem accept_closing_nil (root : Option Element) (written : String) :
    accept ⟨[], root⟩ (.closing written) =
      .error (.illFormed (.unreadable (.mismatchedEnd "" written))) := rfl

theorem accept_closing_cons (innermost : Element) (outer : List Element) (root : Option Element)
    (written : String) :
    accept ⟨innermost :: outer, root⟩ (.closing written) =
      if closedName written = innermost.name then attach ⟨outer, root⟩ innermost
      else .error (.illFormed (.unreadable
        (.mismatchedEnd innermost.name (closedName written)))) := by
  by_cases h : closedName written = innermost.name
  · simp [accept, names, Transcript.stepNames, feed, h]
  · simp [accept, names, Transcript.stepNames, h]

/-- An end tag is taken only if it closes the innermost open element, which is then put where it
    belongs. -/
theorem closing_of_accept {b b' : Builder} {written : String}
    (h : b.accept (.closing written) = .ok b') :
    ∃ innermost outer, b.opened = innermost :: outer ∧
      closedName written = innermost.name ∧ attach ⟨outer, b.root⟩ innermost = .ok b' := by
  rcases b with ⟨_ | ⟨innermost, outer⟩, root⟩
  · rw [accept_closing_nil] at h
    cases h
  · rw [accept_closing_cons] at h
    split at h
    · next hname => exact ⟨innermost, outer, rfl, hname, h⟩
    · cases h

/-! ### The two stacks stay in step -/

theorem names_attach {b b' : Builder} {e : Element} (h : b.attach e = .ok b') :
    b'.names = b.names := by
  rcases b with ⟨_ | ⟨parent, outer⟩, _ | root⟩ <;> cases h <;> rfl

@[simp] theorem names_appendText (b : Builder) (piece : String) :
    (b.appendText piece).names = b.names := by
  rcases b with ⟨_ | ⟨innermost, outer⟩, root⟩ <;> rfl

/-- **The names of the open elements follow the check.**  Where the check lets an event through,
    the names it goes on with are those of the elements open in the builder after the event. -/
theorem names_of_feed {b b' : Builder} {e : Event} {after : List String}
    (hstep : Transcript.stepNames b.names e = .ok after) (hfeed : b.feed e = .ok b') :
    after = b'.names := by
  cases e with
  | opening name =>
    cases hstep
    simp only [feed] at hfeed
    split at hfeed
    · cases hfeed
    · cases hfeed
      rfl
  | selfClosed name =>
    cases hstep
    exact (names_attach hfeed).symm
  | closing written =>
    rcases b with ⟨_ | ⟨innermost, outer⟩, root⟩
    · cases hfeed
    · have hafter : after = outer.map Element.name := by
        simp only [names, List.map_cons, Transcript.stepNames] at hstep
        split at hstep
        · cases hstep
          rfl
        · cases hstep
      rw [hafter, names_attach hfeed]
      rfl
  | text content =>
    cases hstep
    simp only [feed] at hfeed
    split at hfeed
    · cases hfeed
      rfl
    · cases content with
      | error error => cases hfeed
      | ok piece =>
        cases hfeed
        exact (names_appendText b piece).symm
  | literal piece =>
    cases hstep
    cases hfeed
    exact (names_appendText b piece).symm
  | ignored =>
    cases hstep
    cases hfeed
    rfl

/-- A run of text that is taken goes into the innermost element, or nowhere. -/
theorem eq_of_accept_text {b b' : Builder} {content : Except EntityError String}
    (h : b.accept (.text content) = .ok b') : b' = b ∨ ∃ piece, b' = b.appendText piece := by
  simp only [accept_text, feed] at h
  split at h
  · cases h
    exact Or.inl rfl
  · cases content with
    | error error => cases h
    | ok piece =>
      cases h
      exact Or.inr ⟨piece, rfl⟩

/-! ### The whole text -/

/-- Reads a text to its end, one event after the other. -/
def read (b : Builder) (text : List Char) : Except DocumentError Element :=
  match _ : Event.next text with
  | .done => b.finish
  | .failed error => .error (.illFormed (.unreadable error))
  | .event e rest => (b.accept e).bind fun b => b.read rest
termination_by text.length
decreasing_by exact length_of_next (by assumption)

theorem read_of_done {b : Builder} {text : List Char} (h : Event.next text = .done) :
    b.read text = b.finish := by
  rw [read]
  split <;> simp_all

theorem read_of_failed {b : Builder} {text : List Char} {error : ReadError}
    (h : Event.next text = .failed error) :
    b.read text = .error (.illFormed (.unreadable error)) := by
  rw [read]
  split <;> simp_all

theorem read_of_event {b : Builder} {text rest : List Char} {e : Event}
    (h : Event.next text = .event e rest) :
    b.read text = (b.accept e).bind fun b => b.read rest := by
  rw [read]
  split <;> simp_all

@[simp] theorem read_nil (b : Builder) : b.read [] = b.finish :=
  read_of_done rfl

/-- Induction along a run that succeeds.  `last` is the end of the text; `step` takes one event
    off it, with the builder after the event. -/
theorem read_induction {motive : Builder → List Char → Prop} {root : Element}
    (last : ∀ b text, Event.next text = .done → b.finish = .ok root → motive b text)
    (step : ∀ b text e rest b', Event.next text = .event e rest → b.accept e = .ok b' →
      b'.read rest = .ok root → motive b' rest → motive b text)
    (b : Builder) (text : List Char) (h : b.read text = .ok root) : motive b text := by
  rcases hnext : Event.next text with _ | error | ⟨e, rest⟩
  · rw [read_of_done hnext] at h
    exact last b text hnext h
  · rw [read_of_failed hnext] at h
    cases h
  · rw [read_of_event hnext] at h
    rcases haccept : b.accept e with error | b'
    · rw [haccept] at h
      cases h
    · rw [haccept] at h
      exact step b text e rest b' hnext haccept h (read_induction last step b' rest h)
termination_by text.length
decreasing_by exact length_of_next hnext

end Builder

namespace Transcript

theorem scan_of_done {text : List Char} (h : Event.next text = .done) :
    scan text = ⟨[], none⟩ := by
  rw [scan]
  split <;> simp_all

theorem scan_of_failed {text : List Char} {error : ReadError}
    (h : Event.next text = .failed error) : scan text = ⟨[], some error⟩ := by
  rw [scan]
  split <;> simp_all

theorem scan_of_event {text rest : List Char} {e : Event} (h : Event.next text = .event e rest) :
    scan text = (scan rest).cons e := by
  rw [scan]
  split <;> simp_all

end Transcript

namespace Builder

/-! ### One pass is as good as three -/

/-- Builds the rest of the tree from the rest of a transcript. -/
def conclude (b : Builder) (transcript : Transcript) : Except DocumentError Element :=
  match transcript.failure with
  | none => (b.feedAll transcript.events).bind finish
  | some error =>
    (b.feedAll transcript.events).bind fun _ => .error (.illFormed (.unreadable error))

theorem conclude_cons (b : Builder) (e : Event) (transcript : Transcript) :
    b.conclude (transcript.cons e) = (b.feed e).bind fun b => b.conclude transcript := by
  rcases transcript with ⟨events, _ | error⟩ <;>
    simp only [conclude, Transcript.cons, feedAll, List.foldlM_cons] <;>
    cases b.feed e <;> rfl

/-- What is left of the text and of its checked transcript lead to the same tree. -/
theorem conclude_scan (b : Builder) (text : List Char) :
    b.conclude (Transcript.checkNames b.names (Transcript.scan text).events
      (Transcript.scan text).failure) = b.read text := by
  rcases hnext : Event.next text with _ | error | ⟨e, rest⟩
  · rw [read_of_done hnext, Transcript.scan_of_done hnext]
    rfl
  · rw [read_of_failed hnext, Transcript.scan_of_failed hnext]
    rfl
  · rw [read_of_event hnext, Transcript.scan_of_event hnext]
    simp only [Transcript.cons, Transcript.checkNames, accept]
    rcases hstep : Transcript.stepNames b.names e with error | after
    · rfl
    · change b.conclude (Transcript.cons e _) = _
      rw [conclude_cons]
      rcases hfeed : b.feed e with error | b'
      · rfl
      · change b'.conclude _ = b'.read rest
        rw [names_of_feed hstep hfeed]
        exact conclude_scan b' rest
termination_by text.length
decreasing_by exact length_of_next hnext

end Builder

/-- The text of a document without the byte-order mark that may stand at its beginning. -/
def afterMark (text : List Char) : List Char :=
  if text.head? = some '\ufeff' then text.drop 1 else text

@[simp] theorem afterMark_nil : afterMark [] = [] := rfl

/-- **One pass reads the document.** -/
theorem Element.parse_eq_read (document : String) :
    Element.parse document = Builder.start.read (afterMark document.toList) := by
  rw [← Builder.conclude_scan]
  rfl

end XmlRpc.Markup
