/-
  XmlRpc/Proofs/OpenNames.lean
  ============================
  **Two stacks of what is open.**

  A document is read in a loop.  The reader takes an event off the text and keeps the
  names of the open elements for the check of end tags; the builder takes the event
  into the tree and keeps the open elements.  Neither looks at what the other keeps.
  Here the loop is written out with both stacks (`Loop.turn`), and with the states that
  it comes to (`Loop.Reached`).

  At the head of every turn the names are those of the open elements (`names_of_turn`
  for one turn, `names_of_reached` for all).  In the middle of a turn they are not: when
  a start tag goes too deep, the reader has its name already and the builder never gets
  it.  But such a turn is the last one.

  So an end tag that the reader lets through always finds the element that it closes,
  and the builder is never told to close where nothing is open: a stray end tag, like
  one with another name, is refused by the reader before.
-/
import XmlRpc.Proofs.Reading

namespace XmlRpc.Markup

/-! ### Messages -/

theorem EntityError.head_message (error : EntityError) :
    error.message.toList.head? ≠ some 'u' := by
  unfold message
  cases error <;> simp

theorem ReadError.head_message (error : ReadError) : error.message.toList.head? ≠ some 'u' := by
  unfold message
  cases error <;> simp

/-- The message of an element closed where none is open is that of no other cause. -/
theorem IllFormed.message_ne {cause : IllFormed} (h : cause ≠ .unexpectedClosing) :
    cause.message ≠ "unexpected closing tag" := by
  intro hmessage
  have htext := congrArg String.toList hmessage
  unfold message at htext
  cases cause with
  | unexpectedClosing => exact h rfl
  | unreadable error => exact error.head_message (by rw [htext]; rfl)
  | badReference error => exact error.head_message (by rw [htext]; rfl)
  | secondRoot name => simp at htext
  | unclosed name => simp at htext
  | noRoot => simp at htext

namespace Builder

theorem finish_ne_unexpectedClosing (b : Builder) :
    b.finish ≠ .error (.illFormed .unexpectedClosing) := by
  rcases b with ⟨_ | ⟨innermost, outer⟩, _ | root⟩ <;> simp [finish]

/-- An element fits anywhere but at the top level after the root. -/
theorem error_of_attach {b : Builder} {e : Element} {error : DocumentError}
    (h : b.attach e = .error error) : error = .illFormed (.secondRoot e.name) := by
  rcases b with ⟨_ | ⟨parent, outer⟩, _ | root⟩ <;> cases h
  rfl

/-- The builder fails in this way at an end tag alone, with nothing open. -/
theorem closing_of_unexpected {b : Builder} {e : Event}
    (h : b.feed e = .error (.illFormed .unexpectedClosing)) :
    b.opened = [] ∧ ∃ written, e = .closing written := by
  cases e with
  | opening name =>
    simp only [feed] at h
    split at h <;> cases h
  | selfClosed name => cases error_of_attach h
  | closing written =>
    rcases b with ⟨_ | ⟨innermost, outer⟩, root⟩
    · exact ⟨rfl, written, rfl⟩
    · cases error_of_attach (b := ⟨outer, root⟩) h
  | text content =>
    simp only [feed] at h
    split at h
    · cases h
    · cases content <;> cases h
  | literal piece => cases h
  | ignored => cases h

end Builder

/-! ### The names of the reader -/

namespace Transcript

variable {names after : List String} {written : String}

/-- An end tag that fits takes the last name off. -/
theorem names_of_stepNames (h : stepNames names (.closing written) = .ok after) :
    names = closedName written :: after := by
  cases names with
  | nil => cases h
  | cons innermost rest =>
    simp only [stepNames] at h
    split at h
    · next hname =>
      cases h
      rw [hname]
    · cases h

theorem stepNames_of_stray (h : ∀ innermost ∈ names.head?, innermost ≠ closedName written) :
    ∃ found, stepNames names (.closing written) =
      .error (.mismatchedEnd (names.head?.getD "") found) := by
  cases names with
  | nil => exact ⟨written, rfl⟩
  | cons innermost rest => exact ⟨closedName written, if_neg (h innermost rfl).symm⟩

end Transcript

/-! ### The loop -/

/-- The reader between two events. -/
structure Reader where
  /-- What is left of the text. -/
  left : List Char
  /-- The names of the open elements, the innermost first. -/
  names : List String

/-- Takes the next event off the text and checks it against the names, if there is one. -/
def Reader.next (r : Reader) : Except ReadError (Option (Event × Reader)) :=
  match Event.next r.left with
  | .done => .ok none
  | .failed error => .error error
  | .event e rest => (Transcript.stepNames r.names e).map fun names => some (e, ⟨rest, names⟩)

theorem Reader.next_of_event {r : Reader} {e : Event} {rest : List Char}
    (h : Event.next r.left = .event e rest) :
    r.next = (Transcript.stepNames r.names e).map fun names => some (e, ⟨rest, names⟩) := by
  rw [next, h]

/-- An end tag that the reader lets through takes the last name off. -/
theorem Reader.names_of_closing {r after : Reader} {written : String}
    (h : r.next = .ok (some (.closing written, after))) :
    r.names = closedName written :: after.names := by
  rcases hnext : Event.next r.left with _ | error | ⟨e, rest⟩
  · rw [next, hnext] at h
    cases h
  · rw [next, hnext] at h
    cases h
  · rw [next_of_event hnext] at h
    rcases hstep : Transcript.stepNames r.names e with error | names
    · rw [hstep] at h
      cases h
    · rw [hstep] at h
      cases h
      exact Transcript.names_of_stepNames hstep

/-- The reader and the builder between two turns. -/
structure Loop where
  reader : Reader
  builder : Builder

namespace Loop

/-- Nothing is read.  A mark of the byte order is no text. -/
def start (document : String) : Loop :=
  ⟨⟨afterMark document.toList, []⟩, .start⟩

/-- How a turn ends. -/
inductive Outcome where
  /-- There is another turn. -/
  | next (loop : Loop)
  /-- The loop is over. -/
  | over (answer : Except DocumentError Element)

/-- One turn: an event is read, and the builder takes it. -/
def turn (loop : Loop) : Outcome :=
  match loop.reader.next with
  | .error error => .over (.error (.illFormed (.unreadable error)))
  | .ok none => .over loop.builder.finish
  | .ok (some (e, reader)) =>
    match loop.builder.feed e with
    | .error error => .over (.error error)
    | .ok builder => .next ⟨reader, builder⟩

/-- The states at the head of a turn, from the beginning of a document on. -/
inductive Reached (document : String) : Loop → Prop where
  | start : Reached document (start document)
  | turn {loop after : Loop} (h : Reached document loop) (hturn : loop.turn = .next after) :
      Reached document after

variable {document : String} {loop after : Loop} {answer : Except DocumentError Element}

/-! ### One turn -/

theorem turn_of_done (h : Event.next loop.reader.left = .done) :
    loop.turn = .over loop.builder.finish := by
  rw [turn, Reader.next, h]

theorem turn_of_failed {error : ReadError} (h : Event.next loop.reader.left = .failed error) :
    loop.turn = .over (.error (.illFormed (.unreadable error))) := by
  rw [turn, Reader.next, h]

/-- While the stacks are in step, a turn does what the builder does that checks the end tags
    itself, and the names it leaves are those of the elements it leaves open. -/
theorem turn_of_event {e : Event} {rest : List Char}
    (hnames : loop.reader.names = loop.builder.names)
    (h : Event.next loop.reader.left = .event e rest) :
    loop.turn =
      match loop.builder.accept e with
      | .error error => .over (.error error)
      | .ok builder => .next ⟨⟨rest, builder.names⟩, builder⟩ := by
  have hread := Reader.next_of_event h
  rw [hnames] at hread
  rcases hstep : Transcript.stepNames loop.builder.names e with error | names
  · rw [hstep] at hread
    rw [turn, hread, Builder.accept, hstep]
    rfl
  · rw [hstep] at hread
    rcases hfeed : loop.builder.feed e with error | builder
    · simp only [turn, hread, Builder.accept, hstep, hfeed, Except.map]
    · simp only [turn, hread, Builder.accept, hstep, hfeed, Except.map,
        Builder.names_of_feed hstep hfeed]

/-- What a turn does that is not the last one. -/
theorem event_of_turn (hnames : loop.reader.names = loop.builder.names)
    (h : loop.turn = .next after) :
    ∃ e, Event.next loop.reader.left = .event e after.reader.left ∧
      loop.builder.accept e = .ok after.builder ∧ after.reader.names = after.builder.names := by
  rcases hnext : Event.next loop.reader.left with _ | error | ⟨e, rest⟩
  · rw [turn_of_done hnext] at h
    cases h
  · rw [turn_of_failed hnext] at h
    cases h
  · rw [turn_of_event hnames hnext] at h
    rcases haccept : loop.builder.accept e with error | builder
    · rw [haccept] at h
      cases h
    · rw [haccept] at h
      cases h
      exact ⟨e, rfl, haccept, rfl⟩

/-- **One turn keeps the stacks in step.** -/
theorem names_of_turn (hnames : loop.reader.names = loop.builder.names)
    (h : loop.turn = .next after) : after.reader.names = after.builder.names := by
  obtain ⟨e, -, -, hafter⟩ := event_of_turn hnames h
  exact hafter

/-- A turn that is not the last one leaves the answer as it is. -/
theorem read_of_turn (hnames : loop.reader.names = loop.builder.names)
    (h : loop.turn = .next after) :
    after.builder.read after.reader.left = loop.builder.read loop.reader.left := by
  obtain ⟨e, hnext, haccept, -⟩ := event_of_turn hnames h
  rw [Builder.read_of_event hnext, haccept]
  rfl

/-- The last turn gives the answer. -/
theorem read_of_over (hnames : loop.reader.names = loop.builder.names)
    (h : loop.turn = .over answer) : loop.builder.read loop.reader.left = answer := by
  rcases hnext : Event.next loop.reader.left with _ | error | ⟨e, rest⟩
  · rw [turn_of_done hnext] at h
    cases h
    exact Builder.read_of_done hnext
  · rw [turn_of_failed hnext] at h
    cases h
    exact Builder.read_of_failed hnext
  · rw [turn_of_event hnames hnext] at h
    rw [Builder.read_of_event hnext]
    rcases haccept : loop.builder.accept e with error | builder
    · rw [haccept] at h
      cases h
      rfl
    · rw [haccept] at h
      cases h

/-! ### All turns -/

/-- **The stacks are in step at the head of every turn.** -/
theorem names_of_reached (h : Reached document loop) :
    loop.reader.names = loop.builder.names := by
  induction h with
  | start => rfl
  | turn h hturn ih => exact names_of_turn ih hturn

theorem read_of_reached (h : Reached document loop) :
    loop.builder.read loop.reader.left = Element.parse document := by
  induction h with
  | start => exact (Element.parse_eq_read document).symm
  | turn h hturn ih => rw [read_of_turn (names_of_reached h) hturn, ih]

/-- Wherever the loop ends, it ends with the tree of the document or the reason against it. -/
theorem parse_of_over (h : Reached document loop) (hover : loop.turn = .over answer) :
    Element.parse document = answer := by
  rw [← read_of_reached h, read_of_over (names_of_reached h) hover]

/-- From every turn on the loop comes to an end: each event is taken off the text. -/
theorem exists_over (loop : Loop) (h : Reached document loop) :
    ∃ last answer, Reached document last ∧ last.turn = .over answer := by
  rcases hturn : loop.turn with after | answer
  · obtain ⟨e, hnext, -, -⟩ := event_of_turn (names_of_reached h) hturn
    exact exists_over after (.turn h hturn)
  · exact ⟨loop, answer, h, hturn⟩
termination_by loop.reader.left.length
decreasing_by exact length_of_next hnext

/-- **The loop reads the document.** -/
theorem exists_last (document : String) :
    ∃ last, Reached document last ∧ last.turn = .over (Element.parse document) := by
  obtain ⟨last, answer, hlast, hover⟩ := exists_over (start document) .start
  refine ⟨last, hlast, ?_⟩
  rw [hover, parse_of_over hlast hover]

/-! ### End tags -/

variable {written : String} {rest : List Char} {reader : Reader}

/-- An end tag that the reader lets through closes the innermost open element of the builder. -/
theorem closing_of_reached (h : Reached document loop)
    (hread : loop.reader.next = .ok (some (.closing written, reader))) :
    ∃ innermost outer, loop.builder.opened = innermost :: outer ∧
      innermost.name = closedName written ∧ reader.names = outer.map Element.name := by
  have hnames : loop.builder.opened.map Element.name = closedName written :: reader.names := by
    rw [← Reader.names_of_closing hread, names_of_reached h, Builder.names]
  obtain ⟨innermost, outer, hopened, hname, houter⟩ := List.map_eq_cons_iff.1 hnames
  exact ⟨innermost, outer, hopened, hname, houter.symm⟩

/-- An end tag that does not close the innermost open element of the builder does not get past the
    reader, and the document is refused for it. -/
theorem refused_of_reached (h : Reached document loop)
    (hnext : Event.next loop.reader.left = .event (.closing written) rest)
    (hstray : ∀ innermost ∈ loop.builder.opened.head?, innermost.name ≠ closedName written) :
    ∃ error found, error = .mismatchedEnd (loop.reader.names.head?.getD "") found ∧
      loop.reader.next = .error error ∧
      Element.parse document = .error (.illFormed (.unreadable error)) := by
  have hnames : ∀ name ∈ loop.reader.names.head?, name ≠ closedName written := by
    rw [names_of_reached h, Builder.names, List.head?_map]
    simpa using hstray
  obtain ⟨found, hfound⟩ := Transcript.stepNames_of_stray hnames
  have hread : loop.reader.next =
      .error (.mismatchedEnd (loop.reader.names.head?.getD "") found) := by
    rw [Reader.next_of_event hnext, hfound]
    rfl
  exact ⟨_, found, rfl, hread, parse_of_over h (by rw [turn, hread])⟩

/-- **No element is ever closed where none is open.** -/
theorem parse_ne_unexpectedClosing (document : String) :
    Element.parse document ≠ .error (.illFormed .unexpectedClosing) := by
  intro hparse
  obtain ⟨last, hlast, hover⟩ := exists_last document
  rw [hparse, turn] at hover
  rcases hread : last.reader.next with error | _ | ⟨e, reader⟩
  · rw [hread] at hover
    cases hover
  · rw [hread] at hover
    exact Builder.finish_ne_unexpectedClosing _ (Outcome.over.inj hover)
  · rw [hread] at hover
    dsimp only at hover
    rcases hfeed : last.builder.feed e with error | builder
    · rw [hfeed] at hover
      cases hover
      obtain ⟨hopened, written, rfl⟩ := Builder.closing_of_unexpected hfeed
      obtain ⟨innermost, outer, hopened', -⟩ := closing_of_reached hlast hread
      rw [hopened] at hopened'
      cases hopened'
    · rw [hfeed] at hover
      cases hover

/-- **The reader and the builder agree on what is open.**  The loop reads the document; at the head
    of every turn, the names that the reader keeps are those of the elements that the builder keeps
    open.  So an end tag that the reader lets through finds the element that it closes, every other
    one is refused by the reader, and no document is refused because nothing was open to be
    closed. -/
theorem stacks_in_step (document : String) :
    (∃ last, Reached document last ∧ last.turn = .over (Element.parse document)) ∧
    (∀ loop, Reached document loop →
      loop.reader.names = loop.builder.opened.map Element.name) ∧
    (∀ loop written reader, Reached document loop →
      loop.reader.next = .ok (some (.closing written, reader)) →
      ∃ innermost outer, loop.builder.opened = innermost :: outer ∧
        innermost.name = closedName written ∧ reader.names = outer.map Element.name) ∧
    (∀ loop written rest, Reached document loop →
      Event.next loop.reader.left = .event (.closing written) rest →
      (∀ innermost ∈ loop.builder.opened.head?, innermost.name ≠ closedName written) →
      ∃ error found, error = .mismatchedEnd (loop.reader.names.head?.getD "") found ∧
        loop.reader.next = .error error ∧
        Element.parse document = .error (.illFormed (.unreadable error))) ∧
    (∀ cause, Element.parse document = .error (.illFormed cause) →
      cause.message ≠ "unexpected closing tag") := by
  refine ⟨exists_last document, fun loop h => names_of_reached h, ?_, ?_, ?_⟩
  · intro loop written reader h hread
    exact closing_of_reached h hread
  · intro loop written rest h hnext hstray
    exact refused_of_reached h hnext hstray
  · intro cause hparse
    apply IllFormed.message_ne
    rintro rfl
    exact parse_ne_unexpectedClosing document hparse

/-- The first end tag closes the element around an empty one; the second closes nothing. -/
theorem stacks_in_step_stray :
    let document := "<a><b/></a ></c>"
    let inside : Loop := ⟨⟨"</a ></c>".toList, ["a"]⟩, ⟨[⟨"a", "", [.empty "b"]⟩], none⟩⟩
    let outside : Loop := ⟨⟨"</c>".toList, []⟩, ⟨[], some ⟨"a", "", [.empty "b"]⟩⟩⟩
    Reached document inside ∧ inside.reader.names = inside.builder.opened.map Element.name ∧
    (∃ innermost outer, inside.builder.opened = innermost :: outer ∧
      innermost.name = closedName "a " ∧ outside.reader.names = outer.map Element.name) ∧
    Reached document outside ∧
    ∃ error, outside.reader.next = .error error ∧
      Element.parse document = .error (.illFormed (.unreadable error)) ∧
      (IllFormed.unreadable error).message ≠ "unexpected closing tag" := by
  intro document inside outside
  have hstart : Event.next (start "<a><b/></a ></c>").reader.left =
      .event (.opening "a") "<b/></a ></c>".toList := by
    rw [start, afterMark, if_neg (by decide)]
    with_unfolding_all rfl
  have hempty : Event.next "<b/></a ></c>".toList =
      .event (.selfClosed "b") "</a ></c>".toList := by
    with_unfolding_all rfl
  have hfits : Event.next "</a ></c>".toList = .event (.closing "a ") "</c>".toList := by
    with_unfolding_all rfl
  have hstray : Event.next "</c>".toList = .event (.closing "c") [] := by
    with_unfolding_all rfl
  have hopened : Reached document ⟨⟨"<b/></a ></c>".toList, ["a"]⟩, ⟨[.empty "a"], none⟩⟩ :=
    .turn .start (by rw [turn_of_event rfl hstart]; rfl)
  have hinside : Reached document inside := .turn hopened (by rw [turn_of_event rfl hempty]; rfl)
  have hread : inside.reader.next = .ok (some (.closing "a ", outside.reader)) := by
    rw [Reader.next_of_event hfits]
    rfl
  have houtside : Reached document outside := .turn hinside (by rw [turn_of_event rfl hfits]; rfl)
  obtain ⟨-, hnames, hclosing, hrefused, hmessage⟩ := stacks_in_step document
  obtain ⟨error, found, -, herror, hparse⟩ :=
    hrefused outside "c" [] houtside hstray (by simp [outside])
  exact ⟨hinside, hnames inside hinside, hclosing inside "a " outside.reader hinside hread,
    houtside, error, herror, hparse, hmessage _ hparse⟩

end Loop

end XmlRpc.Markup
