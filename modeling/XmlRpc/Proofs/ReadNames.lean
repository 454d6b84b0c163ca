/-
  XmlRpc/Proofs/ReadNames.lean
  ============================
  **Which names the elements of a document can have.**

  The reader takes whatever stands at the beginning of a start tag for its name.
  So a name may be empty and may hold quotes, slashes and even a `>`; but it never
  holds a separator, never begins like another kind of markup, and a `>` in it
  stands between quotes.  `ReadName` collects these three facts, and
  `everyName_of_parseBy` says that they hold at every place in the tree of a document.

  They fall short of `IsTagName`: not every name that is read is given back when it
  is written into tags.
-/
import XmlRpc.Proofs.EndTags
import XmlRpc.Proofs.Truncation

namespace XmlRpc.Markup

/-- The names that the tags of a document can have. -/
structure ReadName (name : String) : Prop where
  whole : ∀ c ∈ name.toList, isSeparator c = false
  start : ∀ c ∈ name.toList.head?, c ≠ '!' ∧ c ≠ '/' ∧ c ≠ '?'
  quiet : Quiet none name.toList

/-! ### The names of tags -/

/-- What stands between the brackets of a tag has no `>` outside quotes. -/
theorem quiet_of_splitTag? {quote : Option Char} {text content rest : List Char}
    (h : splitTag? quote text = some (content, rest)) :
    Quiet quote content ∧ text = content ++ '>' :: rest := by
  induction text generalizing quote content with
  | nil => cases h
  | cons c text ih =>
    cases quote with
    | none =>
      rw [splitTag?] at h
      split at h
      · next hc =>
        cases h
        exact ⟨trivial, by rw [hc]; rfl⟩
      · next hc =>
        obtain ⟨parts, hparts, heq⟩ := Option.map_eq_some_iff.1 h
        cases heq
        obtain ⟨hquiet, htext⟩ := ih hparts
        exact ⟨⟨fun _ => hc, hquiet⟩, by rw [htext]; rfl⟩
    | some opened =>
      rw [splitTag?] at h
      obtain ⟨parts, hparts, heq⟩ := Option.map_eq_some_iff.1 h
      cases heq
      obtain ⟨hquiet, htext⟩ := ih hparts
      exact ⟨⟨fun hnone => (Option.some_ne_none _ hnone).elim, hquiet⟩, by rw [htext]; rfl⟩

/-- A name is read off the front of a tag. -/
theorem readName_of_front {name content : List Char} (hfront : name <+: content)
    (hwhole : ∀ c ∈ name, isSeparator c = false) (hquiet : Quiet none content)
    (hstart : ∀ c ∈ content.head?, c ≠ '!' ∧ c ≠ '/' ∧ c ≠ '?') :
    ReadName (String.ofList name) := by
  obtain ⟨more, rfl⟩ := hfront
  refine ⟨?_, ?_, ?_⟩
  · rw [String.toList_ofList]
    exact hwhole
  · rw [String.toList_ofList]
    intro c hc
    refine hstart c ?_
    rcases name with _ | ⟨d, name⟩
    · cases hc
    · exact hc
  · rw [String.toList_ofList]
    exact (quiet_append.1 hquiet).1

theorem not_separator_of_takeWhile {content : List Char} :
    ∀ c ∈ content.takeWhile (!isSeparator ·), isSeparator c = false := by
  intro c hc
  have hpass := List.mem_takeWhile_imp hc
  rwa [Bool.not_eq_true'] at hpass

/-- The name of a tag event. -/
theorem readName_of_tagEvent {content : List Char} {name : String}
    (h : tagEvent content = .opening name ∨ tagEvent content = .selfClosed name)
    (hquiet : Quiet none content)
    (hstart : ∀ c ∈ content.head?, c ≠ '!' ∧ c ≠ '/' ∧ c ≠ '?') : ReadName name := by
  by_cases hlast : content.getLast? = some '/'
  · rw [tagEvent, if_pos hlast] at h
    rcases h with h | h
    · cases h
    · cases h
      have hname : content.dropLast.takeWhile (!isSeparator ·) <+: content.dropLast :=
        List.takeWhile_prefix _
      have hslash : content.dropLast <+: content := List.dropLast_prefix content
      exact readName_of_front (hname.trans hslash) not_separator_of_takeWhile hquiet hstart
  · rw [tagEvent, if_neg hlast] at h
    rcases h with h | h
    · cases h
      have hname : content.takeWhile (!isSeparator ·) <+: content := List.takeWhile_prefix _
      exact readName_of_front hname not_separator_of_takeWhile hquiet hstart
    · cases h

/-! ### Where an event comes from -/

/-- A declaration never makes a tag. -/
theorem event_of_readDeclaration {text rest : List Char} {e : Event}
    (h : readDeclaration text = .event e rest) :
    e = .ignored ∨ ∃ content, e = .literal content := by
  cases text with
  | nil => cases h
  | cons c text =>
    simp only [readDeclaration] at h
    split at h
    · unfold readLiteral at h
      split at h
      · cases h
      · dsimp only at h
        split at h
        · cases h
          exact Or.inr ⟨_, rfl⟩
        · cases h
    · split at h
      · unfold readComment at h
        split at h
        · cases h
        · split at h
          · cases h
            exact Or.inl rfl
          · cases h
      · split at h
        · unfold readDocumentType at h
          split at h
          · cases h
          · split at h
            · cases h
            · split at h
              · cases h
              · cases h
                exact Or.inl rfl
        · cases h

/-- The kinds of event by what they come from. -/
inductive Origin (text rest : List Char) : Event → Prop where
  | text (content : Except EntityError String) : Origin text rest (.text content)
  | literal (content : String) : Origin text rest (.literal content)
  | ignored : Origin text rest .ignored
  | closing (written : String) : Origin text rest (.closing written)
  | tag (e : Event) (c : Char) (tail : List Char) (htext : text = '<' :: c :: tail)
      (hc : c ≠ '!' ∧ c ≠ '/' ∧ c ≠ '?') (h : readTag (c :: tail) = .event e rest) :
      Origin text rest e

theorem origin_of_next {text rest : List Char} {e : Event} (h : Event.next text = .event e rest) :
    Origin text rest e := by
  cases text with
  | nil => cases h
  | cons c text =>
    simp only [Event.next] at h
    split at h
    · next hc =>
      cases text with
      | nil => cases h
      | cons d tail =>
        simp only [readMarkup] at h
        split at h
        · rcases event_of_readDeclaration h with rfl | ⟨content, rfl⟩
          · exact .ignored
          · exact .literal content
        · next hbang =>
          split at h
          · simp only [readClosing] at h
            cases h
            exact .closing _
          · next hslash =>
            split at h
            · simp only [readInstruction] at h
              split at h
              · cases h
                exact .ignored
              · cases h
            · next hquestion =>
              exact .tag e d tail (by rw [hc]) ⟨hbang, hslash, hquestion⟩ h
    · cases h
      exact .text _

theorem readName_of_next {text rest : List Char} {e : Event} {name : String}
    (hname : e = .opening name ∨ e = .selfClosed name) (h : Event.next text = .event e rest) :
    ReadName name := by
  cases origin_of_next h with
  | tag _ c tail htext hc hread =>
    unfold readTag at hread
    rcases hsplit : splitTag? none (c :: tail) with _ | ⟨content, left⟩
    · rw [hsplit] at hread
      cases hread
    · rw [hsplit] at hread
      cases hread
      obtain ⟨hquiet, hcontent⟩ := quiet_of_splitTag? hsplit
      refine readName_of_tagEvent hname hquiet fun d hd => ?_
      -- the name begins where the tag begins
      rcases content with _ | ⟨d', content⟩
      · cases hd
      · cases hcontent
        cases hd
        exact hc
  | _ => rcases hname with hname | hname <;> cases hname

/-! ### Every element -/

/-- A condition on names, asked of every element of a tree. -/
inductive Element.EveryName (P : String → Prop) : Element → Prop where
  | mk (name text : String) (children : List Element) (hname : P name)
      (hchildren : ∀ child ∈ children, child.EveryName P) : EveryName P ⟨name, text, children⟩

namespace Element.EveryName

variable {P : String → Prop} {e child : Element}

theorem name (h : e.EveryName P) : P e.name := by
  cases h with
  | mk name text children hname hchildren => exact hname

theorem children (h : e.EveryName P) : ∀ child ∈ e.children, child.EveryName P := by
  cases h with
  | mk name text children hname hchildren => exact hchildren

theorem empty {name : String} (h : P name) : (Element.empty name).EveryName P :=
  .mk name "" [] h (by simp)

theorem appendText (h : e.EveryName P) (piece : String) : (e.appendText piece).EveryName P :=
  .mk e.name _ e.children h.name h.children

theorem appendChild (h : e.EveryName P) (hchild : child.EveryName P) :
    (e.appendChild child).EveryName P := by
  refine .mk e.name _ _ h.name fun c hc => ?_
  rcases List.mem_append.1 hc with hold | hnew
  · exact h.children c hold
  · rw [List.mem_singleton.1 hnew]
    exact hchild

end Element.EveryName

namespace Builder

/-- A condition on names, asked of everything that was read. -/
structure EveryName (P : String → Prop) (b : Builder) : Prop where
  opened : ∀ e ∈ b.opened, e.EveryName P
  root : ∀ e ∈ b.root, e.EveryName P

variable {P : String → Prop}

theorem everyName_attach {b b' : Builder} {e : Element} (hb : b.EveryName P) (he : e.EveryName P)
    (h : b.attach e = .ok b') : b'.EveryName P := by
  rcases b with ⟨_ | ⟨parent, outer⟩, _ | complete⟩
  · cases h
    exact ⟨by simp, by simpa using he⟩
  · cases h
  all_goals
    cases h
    refine ⟨?_, hb.root⟩
    intro d hd
    rcases List.mem_cons.1 hd with rfl | houter
    · exact (hb.opened parent (by simp)).appendChild he
    · exact hb.opened d (by simp [houter])

theorem everyName_appendText {b : Builder} (hb : b.EveryName P) (piece : String) :
    (b.appendText piece).EveryName P := by
  rcases b with ⟨_ | ⟨innermost, outer⟩, root⟩
  · exact hb
  · refine ⟨?_, hb.root⟩
    intro d hd
    rcases List.mem_cons.1 hd with rfl | houter
    · exact (hb.opened innermost (by simp)).appendText piece
    · exact hb.opened d (by simp [houter])

/-- **An event whose name is in the class keeps all names in the class.** -/
theorem everyName_feed {b b' : Builder} {e : Event} (hb : b.EveryName P)
    (he : ∀ name, e = .opening name ∨ e = .selfClosed name → P name)
    (h : b.feed e = .ok b') : b'.EveryName P := by
  cases e with
  | opening name =>
    rw [feed] at h
    split at h
    · cases h
    · cases h
      refine ⟨?_, hb.root⟩
      intro d hd
      rcases List.mem_cons.1 hd with rfl | houter
      · exact .empty (he name (Or.inl rfl))
      · exact hb.opened d houter
  | selfClosed name => exact everyName_attach hb (.empty (he name (Or.inr rfl))) h
  | closing written =>
    rcases b with ⟨_ | ⟨innermost, outer⟩, root⟩
    · cases h
    · have hinnermost := hb.opened innermost List.mem_cons_self
      have houter : EveryName P ⟨outer, root⟩ :=
        ⟨fun d hd => hb.opened d (List.mem_cons_of_mem _ hd), hb.root⟩
      exact everyName_attach houter hinnermost h
  | text content =>
    rcases eq_of_accept_text h with rfl | ⟨piece, rfl⟩
    · exact hb
    · exact everyName_appendText hb piece
  | literal piece =>
    cases h
    exact everyName_appendText hb piece
  | ignored =>
    cases h
    exact hb

theorem everyName_feedAll {b b' : Builder} {events : List Event} (hb : b.EveryName P)
    (he : ∀ e ∈ events, ∀ name, e = .opening name ∨ e = .selfClosed name → P name)
    (h : b.feedAll events = .ok b') : b'.EveryName P := by
  induction events generalizing b with
  | nil =>
    cases h
    exact hb
  | cons e rest ih =>
    rw [feedAll, List.foldlM_cons] at h
    rcases hfeed : b.feed e with error | after
    · rw [hfeed] at h
      cases h
    · rw [hfeed] at h
      have hafter := everyName_feed hb (he e List.mem_cons_self) hfeed
      exact ih hafter (fun e he' => he e (List.mem_cons_of_mem _ he')) h

end Builder

theorem next_of_mem_scan {text : List Char} {e : Event}
    (h : e ∈ (Transcript.scan text).events) :
    ∃ before after, Event.next before = .event e after := by
  rcases hnext : Event.next text with _ | error | ⟨first, rest⟩
  · rw [Transcript.scan_of_done hnext] at h
    cases h
  · rw [Transcript.scan_of_failed hnext] at h
    cases h
  · rw [Transcript.scan_of_event hnext] at h
    rcases List.mem_cons.1 h with rfl | hrest
    · exact ⟨text, rest, hnext⟩
    · exact next_of_mem_scan hrest
termination_by text.length
decreasing_by exact length_of_next hnext

/-- **The names in a tree of events that were read are names that tags can have.**  It does not
    matter whether the end tags fit. -/
theorem Element.everyName_of_ofEvents {text : List Char} {root : Element}
    (h : Element.ofEvents (Transcript.scan text).events = .ok root) : root.EveryName ReadName := by
  rw [Element.ofEvents] at h
  rcases hfeed : Builder.start.feedAll (Transcript.scan text).events with error | b
  · rw [hfeed] at h
    cases h
  · rw [hfeed] at h
    have hstart : Builder.start.EveryName ReadName :=
      ⟨by simp [Builder.start], by simp [Builder.start]⟩
    have hb : b.EveryName ReadName := by
      refine Builder.everyName_feedAll hstart ?_ hfeed
      intro e he name hname
      obtain ⟨before, after, hnext⟩ := next_of_mem_scan he
      exact readName_of_next hname hnext
    exact hb.root root (by rw [Builder.root_of_finish h]; rfl)

/-- **The names in the tree of a document are names that its tags can have.** -/
theorem Element.everyName_of_parseBy {blank : Char → Bool} {document : String} {root : Element}
    (h : Element.parseBy blank document = .ok root) : root.EveryName ReadName :=
  everyName_of_ofEvents (ofEvents_of_parseBy h)

namespace Element

theorem everyName_of_child? {P : String → Prop} {e child : Element} {name : String}
    (he : e.EveryName P) (h : e.child? name = some child) : child.EveryName P :=
  he.children child (List.mem_of_find?_eq_some h)

mutual

theorem everyName_of_find? {P : String → Prop} (e : Element) {found : Element} {name : String}
    (he : e.EveryName P) (h : e.find? name = some found) : found.EveryName P := by
  cases e with
  | mk own text children =>
    rw [find?] at h
    split at h
    · cases h
      exact he
    · exact everyName_of_findIn? children he.children h

theorem everyName_of_findIn? {P : String → Prop} (trees : List Element) {found : Element}
    {name : String} (htrees : ∀ e ∈ trees, e.EveryName P) (h : findIn? name trees = some found) :
    found.EveryName P := by
  cases trees with
  | nil => cases h
  | cons tree rest =>
    rw [findIn?, Option.or_eq_some_iff] at h
    rcases h with hfirst | ⟨-, hrest⟩
    · exact everyName_of_find? tree (htrees tree (by simp)) hfirst
    · exact everyName_of_findIn? rest (fun e he => htrees e (by simp [he])) hrest

end

end Element

end XmlRpc.Markup
