/-
  XmlRpc/Proofs/Bracketing.lean
  =============================
  **Which sequences of events make a tree.**

  A builder is a stack machine, and what it is meant to accept is said without a
  stack: the events of an element are its tag alone if nothing stands in it, or its
  start tag, what stands in it, and an end tag.  `Linearised` and `Contents` are this
  rule.  Events that are ignored, and text outside of every element, do not count
  (`essential`).

  The two agree (`ofEvents_eq_ok_iff`):

    * a builder takes the events of an element as if the element were put in at once
      (`feedAll_of_linearised`), by induction on the tree;
    * the events a builder has taken are those of its root, and then, from the
      outermost open element to the innermost, a start tag with what stands in the
      element so far (`Spine`), by induction on the events.

  How many start tags may be open is a condition of its own.  It is asked at every
  moment, that is, of every beginning of the sequence (`Fits`).
-/
import XmlRpc.Proofs.Truncation

namespace XmlRpc.Markup

variable {b b' : Builder} {events : List Event}

/-! ### How many elements are open -/

/-- How many elements are open after an event when `count` were open before it. -/
def openAfter (count : Nat) : Event → Nat
  | .opening _ => count + 1
  | .closing _ => count - 1
  | _ => count

def openAfterAll (count : Nat) (events : List Event) : Nat :=
  events.foldl openAfter count

@[simp] theorem openAfterAll_nil (count : Nat) : openAfterAll count [] = count := rfl

@[simp] theorem openAfterAll_cons (count : Nat) (event : Event) (events : List Event) :
    openAfterAll count (event :: events) = openAfterAll (openAfter count event) events := rfl

@[simp] theorem openAfterAll_append (count : Nat) (events more : List Event) :
    openAfterAll count (events ++ more) = openAfterAll (openAfterAll count events) more :=
  List.foldl_append

/-- At no moment are more start tags open than may be. -/
def Fits (count : Nat) (events : List Event) : Prop :=
  ∀ front, front <+: events → openAfterAll count front ≤ maxDepth

theorem Fits.left {count : Nat} {more : List Event} (h : Fits count (events ++ more)) :
    Fits count events :=
  fun front hfront => h front (hfront.trans (List.prefix_append events more))

theorem Fits.right {count : Nat} {more : List Event} (h : Fits count (events ++ more)) :
    Fits (openAfterAll count events) more := by
  intro front hfront
  rw [← openAfterAll_append]
  exact h (events ++ front) ((List.prefix_append_right_inj events).2 hfront)

theorem Fits.tail {count : Nat} {event : Event} (h : Fits count (event :: events)) :
    Fits (openAfter count event) events := by
  have hsplit : Fits count ([event] ++ events) := h
  exact hsplit.right

theorem Fits.cons {count : Nat} {event : Event} (hcount : count ≤ maxDepth)
    (h : Fits (openAfter count event) events) : Fits count (event :: events) := by
  intro front hfront
  rcases List.prefix_cons_iff.1 hfront with rfl | ⟨front, rfl, hfront⟩
  · exact hcount
  · exact h front ((List.cons_prefix_cons.1 hfront).2)

/-! ### The events that count -/

/-- Whether an event says something about the tree when `count` elements are open. -/
def Event.counts (count : Nat) : Event → Bool
  | .ignored => false
  | .text _ => count ≠ 0
  | .literal _ => count ≠ 0
  | _ => true

/-- A sequence without its ignored events and without the text outside of every element. -/
def essential (count : Nat) : List Event → List Event
  | [] => []
  | event :: rest =>
    if event.counts count then event :: essential (openAfter count event) rest
    else essential count rest

theorem Event.openAfter_of_not_counts {count : Nat} {event : Event}
    (h : ¬event.counts count = true) : openAfter count event = count := by
  cases event with
  | opening name => exact (h rfl).elim
  | selfClosed name => rfl
  | closing written => exact (h rfl).elim
  | text content => rfl
  | literal content => rfl
  | ignored => rfl

theorem Fits.essential {count : Nat} (h : Fits count events) :
    Fits count (essential count events) := by
  induction events generalizing count with
  | nil => exact h
  | cons event events ih =>
    rw [Markup.essential]
    split
    · exact .cons (h [] List.nil_prefix) (ih h.tail)
    · next hcounts =>
      have htail := h.tail
      rw [Event.openAfter_of_not_counts hcounts] at htail
      exact ih htail

/-! ### The events of a tree -/

mutual

/-- The events of an element.  What an end tag has written in it is not looked at here: that it
    fits is checked when the events are read. -/
inductive Linearised : Element → List Event → Prop where
  /-- An element with nothing in it may be one tag. -/
  | selfClosed (name : String) : Linearised (.empty name) [.selfClosed name]
  /-- An element may be two tags around what stands in it. -/
  | tags (name written : String) {text : String} {children : List Element} {inner : List Event}
      (h : Contents text children inner) :
      Linearised ⟨name, text, children⟩ (.opening name :: (inner ++ [.closing written]))

/-- The events of what stands in an element: pieces of text, which make up its text in order, and
    its children. -/
inductive Contents : String → List Element → List Event → Prop where
  | nil : Contents "" [] []
  | text {text : String} {children : List Element} {events : List Event}
      (h : Contents text children events) (piece : String) :
      Contents (text ++ piece) children (events ++ [.text (.ok piece)])
  | literal {text : String} {children : List Element} {events : List Event}
      (h : Contents text children events) (piece : String) :
      Contents (text ++ piece) children (events ++ [.literal piece])
  | child {text : String} {children : List Element} {events inner : List Event} {e : Element}
      (h : Contents text children events) (hchild : Linearised e inner) :
      Contents text (children ++ [e]) (events ++ inner)

end

mutual

/-- An element closes what it opens. -/
theorem openAfterAll_of_linearised {e : Element} {events : List Event} :
    Linearised e events → ∀ count : Nat, openAfterAll count events = count
  | .selfClosed name, count => rfl
  | .tags name written h, count => by
    rw [openAfterAll_cons, openAfterAll_append, openAfterAll_of_contents h]
    rfl

theorem openAfterAll_of_contents {text : String} {children : List Element} {events : List Event} :
    Contents text children events → ∀ count : Nat, openAfterAll count events = count
  | .nil, count => rfl
  | .text h piece, count => by
    rw [openAfterAll_append, openAfterAll_of_contents h]
    rfl
  | .literal h piece, count => by
    rw [openAfterAll_append, openAfterAll_of_contents h]
    rfl
  | .child h hchild, count => by
    rw [openAfterAll_append, openAfterAll_of_contents h, openAfterAll_of_linearised hchild]

end

namespace Builder

/-! ### From the tree to the run -/

theorem feedAll_append (b : Builder) (events more : List Event) :
    b.feedAll (events ++ more) = (b.feedAll events).bind fun b => b.feedAll more :=
  List.foldlM_append

theorem feedAll_cons (b : Builder) (event : Event) (events : List Event) :
    b.feedAll (event :: events) = (b.feed event).bind fun b => b.feedAll events :=
  List.foldlM_cons

theorem feedAll_singleton (b : Builder) (event : Event) : b.feedAll [event] = b.feed event := by
  rw [feedAll_cons]
  rcases b.feed event with error | b' <;> rfl

mutual

/-- **The events of an element put it where it belongs.** -/
theorem feedAll_of_linearised {e : Element} {events : List Event} :
    Linearised e events → ∀ b : Builder, Fits b.opened.length events →
      b.feedAll events = b.attach e
  | .selfClosed name, b, _ => feedAll_singleton b (.selfClosed name)
  | .tags name written h, b, hfits => by
    have hinner := feedAll_of_contents h (.empty name) b.opened b.root hfits.tail.left
    have hroom : ¬maxDepth ≤ b.opened.length := by
      have hfirst := hfits [.opening name] ⟨_, rfl⟩
      exact Nat.not_le_of_lt hfirst
    have hopening : b.feed (.opening name) = .ok ⟨.empty name :: b.opened, b.root⟩ := if_neg hroom
    -- the start tag opens an empty element, its contents fill it, and the end tag attaches it
    rw [feedAll_cons, hopening]
    change feedAll ⟨.empty name :: b.opened, b.root⟩ _ = _
    rw [feedAll_append, hinner]
    change feedAll _ [.closing written] = _
    rw [feedAll_singleton]
    simp [feed, Element.empty]

/-- What stands in an element goes into it, after what is there. -/
theorem feedAll_of_contents {text : String} {children : List Element} {events : List Event} :
    Contents text children events → ∀ (e : Element) (outer : List Element) (root : Option Element),
      Fits (outer.length + 1) events →
      feedAll ⟨e :: outer, root⟩ events =
        .ok ⟨⟨e.name, e.text ++ text, e.children ++ children⟩ :: outer, root⟩
  | .nil, ⟨name, text, children⟩, outer, root, _ => by simp [feedAll, pure, Except.pure]
  | .text h piece, e, outer, root, hfits => by
    rw [feedAll_append, feedAll_of_contents h e outer root hfits.left]
    change feedAll _ [.text (.ok piece)] = _
    rw [feedAll_singleton]
    simp [feed, appendText, Element.appendText, String.append_assoc]
  | .literal h piece, e, outer, root, hfits => by
    rw [feedAll_append, feedAll_of_contents h e outer root hfits.left]
    change feedAll _ [.literal piece] = _
    rw [feedAll_singleton]
    simp [feed, appendText, Element.appendText, String.append_assoc]
  | .child h hchild, e, outer, root, hfits => by
    have hright := hfits.right
    rw [openAfterAll_of_contents h] at hright
    rw [feedAll_append, feedAll_of_contents h e outer root hfits.left]
    change feedAll _ _ = _
    rw [feedAll_of_linearised hchild ⟨_ :: outer, root⟩ hright]
    simp [attach, Element.appendChild]

end

/-! ### From the run to the tree -/

theorem length_of_attach {e : Element} (h : b.attach e = .ok b') :
    b'.opened.length = b.opened.length := by
  have hnames := congrArg List.length (names_attach h)
  simpa [names] using hnames

theorem length_appendText (b : Builder) (piece : String) :
    (b.appendText piece).opened.length = b.opened.length := by
  rcases b with ⟨_ | ⟨innermost, outer⟩, root⟩ <;> rfl

/-- The stack is as high as the events say. -/
theorem length_of_feed {event : Event} (h : b.feed event = .ok b') :
    b'.opened.length = openAfter b.opened.length event := by
  cases event with
  | opening name =>
    simp only [feed] at h
    split at h
    · cases h
    · cases h
      rfl
  | selfClosed name => exact length_of_attach h
  | closing written =>
    rcases b with ⟨_ | ⟨innermost, outer⟩, root⟩
    · cases h
    · exact length_of_attach (b := ⟨outer, root⟩) h
  | text content =>
    rcases eq_of_accept_text h with rfl | ⟨piece, rfl⟩
    · rfl
    · exact length_appendText b piece
  | literal piece =>
    cases h
    exact length_appendText b piece
  | ignored =>
    cases h
    rfl

theorem length_le_of_feed {event : Event} (hb : b.opened.length ≤ maxDepth)
    (h : b.feed event = .ok b') : b'.opened.length ≤ maxDepth := by
  rw [length_of_feed h]
  cases event with
  | opening name =>
    simp only [feed] at h
    split at h
    · cases h
    · next hroom => exact Nat.lt_of_not_le hroom
  | closing written => exact Nat.le_trans (Nat.sub_le _ _) hb
  | _ => exact hb

theorem fits_of_feedAll (hb : b.opened.length ≤ maxDepth) (h : b.feedAll events = .ok b') :
    Fits b.opened.length events := by
  induction events generalizing b with
  | nil =>
    intro front hfront
    rw [List.prefix_nil.1 hfront]
    exact hb
  | cons event events ih =>
    rw [feedAll_cons] at h
    rcases hfeed : b.feed event with error | middle
    · rw [hfeed] at h
      cases h
    · rw [hfeed] at h
      have hrest := ih (length_le_of_feed hb hfeed) h
      rw [length_of_feed hfeed] at hrest
      exact .cons hb hrest

/-- The events behind the open elements, from the outermost to the innermost: each gives a start
    tag and what stands in it so far. -/
inductive Spine : List Element → List Event → Prop where
  | nil : Spine [] []
  | cons {e : Element} {outer : List Element} {events inner : List Event}
      (h : Spine outer events) (hinner : Contents e.text e.children inner) :
      Spine (e :: outer) (events ++ .opening e.name :: inner)

/-- The events that count behind a builder: those of its root, and then those of what is open. -/
inductive Traced : Builder → List Event → Prop where
  | unrooted {opened : List Element} {events : List Event} (h : Spine opened events) :
      Traced ⟨opened, none⟩ events
  | rooted {opened : List Element} {root : Element} {before events : List Event}
      (hroot : Linearised root before) (h : Spine opened events) :
      Traced ⟨opened, some root⟩ (before ++ events)

/-- Traced builders differ in what is open alone if their roots are the same. -/
theorem Traced.imp {opened opened' : List Element} {root : Option Element} {more : List Event}
    (h : Traced ⟨opened, root⟩ events)
    (hspine : ∀ events, Spine opened events → Spine opened' (events ++ more)) :
    Traced ⟨opened', root⟩ (events ++ more) := by
  cases h with
  | unrooted h => exact .unrooted (hspine _ h)
  | rooted hroot h =>
    rw [List.append_assoc]
    exact .rooted hroot (hspine _ h)

/-- What is put into the innermost open element comes last. -/
theorem Spine.grow {e e' : Element} {outer : List Element} {more : List Event}
    (h : Spine (e :: outer) events) (hname : e'.name = e.name)
    (hinner : ∀ inner, Contents e.text e.children inner →
      Contents e'.text e'.children (inner ++ more)) : Spine (e' :: outer) (events ++ more) := by
  cases h with
  | cons h hold =>
    have hnew := Spine.cons h (hinner _ hold)
    rw [hname] at hnew
    simpa using hnew

theorem traced_attach {e : Element} {more : List Event} (hb : Traced b events)
    (he : Linearised e more) (h : b.attach e = .ok b') : Traced b' (events ++ more) := by
  rcases b with ⟨_ | ⟨parent, outer⟩, _ | root⟩
  · cases h
    cases hb with
    | unrooted hspine =>
      cases hspine
      have hroot := Traced.rooted he .nil
      simpa using hroot
  · cases h
  all_goals
    cases h
    refine hb.imp fun events hspine => hspine.grow rfl fun inner hinner => ?_
    exact .child hinner he

theorem traced_appendText {piece : String} {event : Event} (hb : Traced b events)
    (hevent : event = .text (.ok piece) ∨ event = .literal piece) (hopened : b.opened ≠ []) :
    Traced (b.appendText piece) (events ++ [event]) := by
  rcases b with ⟨_ | ⟨innermost, outer⟩, root⟩
  · exact (hopened rfl).elim
  · refine hb.imp fun events hspine => hspine.grow rfl fun inner hinner => ?_
    rcases hevent with rfl | rfl
    · exact .text hinner piece
    · exact .literal hinner piece

/-- **One event is one more event behind the builder, if it counts.** -/
theorem traced_feed {event : Event} (hb : Traced b events) (h : b.feed event = .ok b') :
    Traced b' (events ++ if event.counts b.opened.length then [event] else []) := by
  cases event with
  | opening name =>
    simp only [feed] at h
    split at h
    · cases h
    · -- a new element is open, and nothing stands in it yet
      cases h
      exact hb.imp fun events hspine => .cons hspine .nil
  | selfClosed name => exact traced_attach hb (.selfClosed name) h
  | closing written =>
    rcases b with ⟨_ | ⟨⟨name, text, children⟩, outer⟩, root⟩
    · cases h
    · -- the start tag of the innermost element and what stands in it are the last of the events
      have hinnermost : ∃ before inner, Traced ⟨outer, root⟩ before ∧
          Contents text children inner ∧ events = before ++ .opening name :: inner := by
        cases hb with
        | unrooted hspine =>
          cases hspine with
          | cons hspine hinner => exact ⟨_, _, .unrooted hspine, hinner, rfl⟩
        | rooted hroot hspine =>
          cases hspine with
          | cons hspine hinner =>
            exact ⟨_, _, .rooted hroot hspine, hinner, (List.append_assoc ..).symm⟩
      obtain ⟨before, inner, houter, hinner, rfl⟩ := hinnermost
      have hattach := traced_attach houter (.tags name written hinner) h
      simpa [Event.counts] using hattach
  | text content =>
    by_cases hopened : b.opened = []
    · have hsame : b = b' := by simpa [feed, hopened] using h
      simpa [Event.counts, hopened, ← hsame] using hb
    · cases content with
      | error error => simp [feed, hopened] at h
      | ok piece =>
        have happend : b.appendText piece = b' := by simpa [feed, hopened] using h
        have hcounts : b.opened.length ≠ 0 := mt List.length_eq_zero_iff.1 hopened
        rw [← happend, Event.counts, if_pos (by simpa using hcounts)]
        exact traced_appendText hb (.inl rfl) hopened
  | literal piece =>
    cases h
    by_cases hopened : b.opened = []
    · rcases b with ⟨opened, root⟩
      cases hopened
      simpa [Event.counts, appendText] using hb
    · have hcounts : b.opened.length ≠ 0 := mt List.length_eq_zero_iff.1 hopened
      rw [Event.counts, if_pos (by simpa using hcounts)]
      exact traced_appendText hb (.inr rfl) hopened
  | ignored =>
    cases h
    simpa [Event.counts] using hb

theorem traced_feedAll {before : List Event} (hb : Traced b before)
    (h : b.feedAll events = .ok b') :
    Traced b' (before ++ essential b.opened.length events) := by
  induction events generalizing b before with
  | nil =>
    cases h
    simpa [essential] using hb
  | cons event events ih =>
    rw [feedAll_cons] at h
    rcases hfeed : b.feed event with error | middle
    · rw [hfeed] at h
      cases h
    · rw [hfeed] at h
      have hrest := ih (traced_feed hb hfeed) h
      rw [length_of_feed hfeed] at hrest
      rw [essential]
      split
      · next hcounts => simpa [hcounts] using hrest
      · next hcounts =>
        rw [Event.openAfter_of_not_counts hcounts] at hrest
        simpa [hcounts] using hrest

/-- **Behind a tree are the events of its root.** -/
theorem linearised_of_traced {root : Element} (hb : Traced b events) (h : b.finish = .ok root) :
    Linearised root events := by
  cases hb with
  | unrooted hspine => cases hspine <;> cases h
  | rooted hroot hspine =>
    cases hspine with
    | nil =>
      cases h
      simpa using hroot
    | cons hspine hinner => cases h

/-! ### What does not count does nothing -/

theorem feed_of_not_counts {event : Event} (h : ¬event.counts b.opened.length = true) :
    b.feed event = .ok b := by
  cases event with
  | opening name => exact (h rfl).elim
  | selfClosed name => exact (h rfl).elim
  | closing written => exact (h rfl).elim
  | text content =>
    have hopened : b.opened = [] := by simpa [Event.counts] using h
    exact if_pos hopened
  | literal piece =>
    rcases b with ⟨_ | ⟨innermost, outer⟩, root⟩
    · rfl
    · exact (h rfl).elim
  | ignored => rfl

theorem feedAll_essential (b : Builder) (events : List Event) :
    b.feedAll (essential b.opened.length events) = b.feedAll events := by
  induction events generalizing b with
  | nil => rfl
  | cons event events ih =>
    rw [essential]
    split
    · rw [feedAll_cons, feedAll_cons]
      rcases hfeed : b.feed event with error | b'
      · rfl
      · rw [← length_of_feed hfeed]
        exact ih b'
    · next hcounts =>
      rw [feedAll_cons, feed_of_not_counts hcounts]
      exact ih b

end Builder

/-! ### Exactly the trees -/

/-- The events that count are those of one tree, and at no moment is too much open. -/
structure Brackets (e : Element) (events : List Event) : Prop where
  tree : Linearised e (essential 0 events)
  depth : ∀ front, front <+: events → openAfterAll 0 front ≤ maxDepth

namespace Element

theorem ofEvents_of_brackets {e : Element} (h : Brackets e events) : ofEvents events = .ok e := by
  have hdepth : Fits 0 events := h.depth
  have hfits : Fits Builder.start.opened.length (essential 0 events) := hdepth.essential
  have hrun := Builder.feedAll_of_linearised h.tree Builder.start hfits
  have hsame : Builder.start.feedAll (essential 0 events) = Builder.start.feedAll events :=
    Builder.feedAll_essential Builder.start events
  rw [ofEvents, ← hsame, hrun]
  rfl

theorem brackets_of_ofEvents {e : Element} (h : ofEvents events = .ok e) : Brackets e events := by
  rw [ofEvents] at h
  rcases hrun : Builder.start.feedAll events with error | b
  · rw [hrun] at h
    cases h
  · rw [hrun] at h
    refine ⟨Builder.linearised_of_traced ?_ h, Builder.fits_of_feedAll (Nat.zero_le _) hrun⟩
    exact Builder.traced_feedAll (.unrooted .nil) hrun

/-- **A sequence of events is accepted exactly if it is that of a tree.**  The tree is then the one
    that is returned; every other sequence is refused. -/
theorem ofEvents_eq_ok_iff (events : List Event) :
    (∀ e, ofEvents events = .ok e ↔ Brackets e events) ∧
    ((∀ e, ¬Brackets e events) → ∃ error, ofEvents events = .error error) := by
  constructor
  · intro e
    exact ⟨brackets_of_ofEvents, ofEvents_of_brackets⟩
  · intro hnone
    rcases hresult : ofEvents events with error | e
    · exact ⟨error, rfl⟩
    · exact (hnone e (brackets_of_ofEvents hresult)).elim

theorem ofEvents_eq_ok_iff_mixed :
    Brackets ⟨"a", "xy", [.empty "b", .empty "c"]⟩
      [.ignored, .literal "z", .opening "a", .text (.ok "x"), .selfClosed "b", .ignored,
        .opening "c", .closing "c", .literal "y", .closing "a", .text (.error .longDecimal)] ∧
    ∃ error, ofEvents [.selfClosed "a", .text (.ok "x"), .opening "b", .closing "b"] =
      .error error := by
  constructor
  · exact ((ofEvents_eq_ok_iff _).1 _).1 rfl
  · apply (ofEvents_eq_ok_iff _).2
    intro e he
    cases ((ofEvents_eq_ok_iff _).1 e).2 he

end Element

end XmlRpc.Markup
