/-
  XmlRpc/Proofs/TreeBytes.lean
  ============================
  **A tree is no larger than the document it was read from.**

  Every element is charged to the bytes of its name, of its text and of its tags.
  Its tags are charged 3 bytes, the brackets and the slash of the shortest form.  Of
  these a start tag pays 2 and the end tag the third, since a start tag may be as
  short as `<>`.

    * `utf8Length_unescapeFrom`: a reference is at least as long as its character;
    * `weight_next`: what an event carries stands in the text it was read from;
    * `bytes_read`: so what is read weighs no more than the text it is read from, with
      `Builder.bytes` as the weight of what is read so far.
-/
import XmlRpc.Proofs.DecodedNodes

namespace XmlRpc

namespace Text

theorem utf8Length_of_sublist {part text : List Char} (h : part.Sublist text) :
    utf8Length part ≤ utf8Length text := by
  induction h with
  | slnil => exact Nat.le_refl _
  | cons c h ih => exact Nat.le_trans ih (Nat.le_add_left _ _)
  | cons_cons c h ih => exact Nat.add_le_add_left ih _

end Text

namespace Markup

open Text (utf8Length utf8Length_of_sublist utf8ByteSize_ofList)

/-! ### References -/

/-- A reference is at least as long as the character it stands for: of the five names none is
    shorter than two bytes, and a number has a `#` and at least one digit. -/
theorem utf8Size_resolve {start stop : Nat} {name : List Char} {c : Char}
    (h : resolve start stop name = .ok c) : c.utf8Size ≤ utf8Length name + 2 := by
  have hfour : c.utf8Size ≤ 4 := Char.utf8Size_le_four c
  unfold resolve at h
  split at h
  · exact Nat.le_trans hfour (by decide)
  · exact Nat.le_trans hfour (by decide)
  · exact Nat.le_trans hfour (by decide)
  · exact Nat.le_trans hfour (by decide)
  · exact Nat.le_trans hfour (by decide)
  · next number =>
    rcases number with _ | ⟨d, number⟩
    · -- without a digit the number is zero, which is no character's
      cases h
    · have hd := Char.utf8Size_pos d
      have hhash : Char.utf8Size '#' = 1 := by decide
      rw [Text.utf8Length_cons, Text.utf8Length_cons]
      omega
  · cases h

/-- A text whose references can be read begins with a character of its own or with a reference. -/
theorem of_unescapeFrom_cons {offset : Nat} {c : Char} {rest content : List Char}
    (h : unescapeFrom offset (c :: rest) = .ok content) :
    (∃ next tail, unescapeFrom next rest = .ok tail ∧ content = c :: tail) ∨
      ∃ name after start stop next character tail, c = '&' ∧ rest = name ++ ';' :: after ∧
        resolve start stop name = .ok character ∧ unescapeFrom next after = .ok tail ∧
        content = character :: tail := by
  rw [unescapeFrom] at h
  split at h
  · next hc =>
    split at h
    · cases h
    · next name after hsplit =>
      obtain ⟨character, hcharacter, h⟩ := Reply.ok_of_bind h
      obtain ⟨tail, htail, h⟩ := Reply.ok_of_bind h
      exact Or.inr ⟨name, after, _, _, _, character, tail, hc, eq_of_splitReference? hsplit,
        hcharacter, htail, (Except.ok.inj h).symm⟩
  · obtain ⟨tail, htail, h⟩ := Reply.ok_of_bind h
    exact Or.inl ⟨_, tail, htail, (Except.ok.inj h).symm⟩

/-- **Reading references never makes a text longer.** -/
theorem utf8Length_unescapeFrom (offset : Nat) (text : List Char) {content : List Char}
    (h : unescapeFrom offset text = .ok content) : utf8Length content ≤ utf8Length text := by
  match text with
  | [] =>
    rw [unescapeFrom] at h
    cases h
    exact Nat.le_refl _
  | c :: rest =>
    rcases of_unescapeFrom_cons h with ⟨next, tail, htail, rfl⟩ |
      ⟨name, after, start, stop, next, character, tail, hc, hrest, hcharacter, htail, rfl⟩
    · exact Nat.add_le_add_left (utf8Length_unescapeFrom next rest htail) _
    · have hshorter : after.length < rest.length + 1 := by
        rw [hrest, List.length_append, List.length_cons]
        omega
      have hafter := utf8Length_unescapeFrom next after htail
      have hsize := utf8Size_resolve hcharacter
      have hamp : Char.utf8Size '&' = 1 := by decide
      have hsemi : Char.utf8Size ';' = 1 := by decide
      rw [hc, hrest]
      simp only [Text.utf8Length_cons, Text.utf8Length_append]
      omega
termination_by text.length

theorem utf8ByteSize_unescape {text content : String} (h : unescape text = .ok content) :
    content.utf8ByteSize ≤ text.utf8ByteSize := by
  obtain ⟨chars, hchars, rfl⟩ := Reply.ok_of_map h
  have hlength := utf8Length_unescapeFrom 0 text.toList hchars
  rwa [Text.utf8Length_toList, ← utf8ByteSize_ofList] at hlength

/-! ### What events carry -/

/-- What an event is charged. -/
def Event.weight : Event → Nat
  | opening name => name.utf8ByteSize + 2
  | selfClosed name => name.utf8ByteSize + 3
  | closing _ => 1
  | text (.ok piece) => piece.utf8ByteSize
  | text (.error _) => 0
  | literal piece => piece.utf8ByteSize
  | ignored => 0

theorem eq_of_splitWhere? {ready : List Char → Bool} {seen text content rest : List Char}
    (h : splitWhere? ready seen text = some (content, rest)) :
    seen.reverse ++ text = content ++ '>' :: rest := by
  induction text generalizing seen with
  | nil => cases h
  | cons c text ih =>
    rw [splitWhere?] at h
    split at h
    · next hend =>
      cases h
      rw [hend.1]
    · have hsplit := ih h
      rw [List.reverse_cons, List.append_assoc] at hsplit
      exact hsplit

theorem utf8Length_splitWhere? {ready : List Char → Bool} {text content rest : List Char}
    (h : splitWhere? ready [] text = some (content, rest)) :
    utf8Length content + utf8Length rest + 1 = utf8Length text := by
  have htext : text = content ++ '>' :: rest := eq_of_splitWhere? h
  have hangle : Char.utf8Size '>' = 1 := by decide
  rw [htext, Text.utf8Length_append, Text.utf8Length_cons]
  omega

theorem utf8Length_splitAtAngle (text : List Char) :
    utf8Length (splitAtAngle text).2 ≤ utf8Length text :=
  utf8Length_of_sublist ((List.drop_sublist _ _).trans (List.dropWhile_sublist _))

theorem weight_readLiteral {text rest : List Char} {e : Event}
    (h : readLiteral text = .event e rest) : e.weight + utf8Length rest ≤ utf8Length text := by
  unfold readLiteral at h
  split at h
  · cases h
  · next content left hsplit =>
    dsimp only at h
    split at h
    · cases h
      have hlength := utf8Length_splitWhere? hsplit
      have hinner := utf8Length_of_sublist ((List.drop_sublist literalKeyword.length _).trans
        (List.take_sublist (content.length - 2) content))
      rw [Event.weight, utf8ByteSize_ofList]
      omega
    · cases h

theorem weight_readComment {text rest : List Char} {e : Event}
    (h : readComment text = .event e rest) : e.weight + utf8Length rest ≤ utf8Length text := by
  unfold readComment at h
  split at h
  · cases h
  · next content left hsplit =>
    split at h
    · cases h
      have hlength := utf8Length_splitWhere? hsplit
      rw [Event.weight]
      omega
    · cases h

theorem weight_readDocumentType {text rest : List Char} {e : Event}
    (h : readDocumentType text = .event e rest) :
    e.weight + utf8Length rest ≤ utf8Length text := by
  unfold readDocumentType at h
  split at h
  · cases h
  · next content left hsplit =>
    split at h
    · cases h
    · split at h
      · cases h
      · cases h
        have hlength := utf8Length_splitWhere? hsplit
        rw [Event.weight]
        omega

theorem weight_readDeclaration {text rest : List Char} {e : Event}
    (h : readDeclaration text = .event e rest) : e.weight + utf8Length rest ≤ utf8Length text := by
  cases text with
  | nil => cases h
  | cons c text =>
    simp only [readDeclaration] at h
    split at h
    · exact weight_readLiteral h
    · split at h
      · exact weight_readComment h
      · split at h
        · exact weight_readDocumentType h
        · cases h

/-- The name of a tag stands in the tag, and so does the slash of an element without content. -/
theorem weight_tagEvent (content : List Char) :
    (tagEvent content).weight ≤ utf8Length content + 2 := by
  unfold tagEvent
  split
  · next hslash =>
    have hcontent : content = content.dropLast ++ ['/'] := by
      obtain ⟨front, rfl⟩ := List.getLast?_eq_some_iff.1 hslash
      simp
    have hname := utf8Length_of_sublist
      (List.takeWhile_sublist (!isSeparator ·) (l := content.dropLast))
    have hlength := congrArg utf8Length hcontent
    rw [Text.utf8Length_append, Text.utf8Length_cons, Text.utf8Length_nil] at hlength
    have hbyte : Char.utf8Size '/' = 1 := by decide
    rw [Event.weight, utf8ByteSize_ofList]
    omega
  · have hname := utf8Length_of_sublist (List.takeWhile_sublist (!isSeparator ·) (l := content))
    rw [Event.weight, utf8ByteSize_ofList]
    omega

theorem weight_readTag {text rest : List Char} {e : Event} (h : readTag text = .event e rest) :
    e.weight + utf8Length rest ≤ utf8Length text + 1 := by
  unfold readTag at h
  split at h
  · cases h
  · next content left hsplit =>
    cases h
    have hangle : Char.utf8Size '>' = 1 := by decide
    rw [(quiet_of_splitTag? hsplit).2, Text.utf8Length_append, Text.utf8Length_cons]
    have htag := weight_tagEvent content
    omega

theorem weight_readText (text : List Char) :
    ∀ e rest, readText text = .event e rest → e.weight + utf8Length rest ≤ utf8Length text := by
  intro e rest h
  cases h
  have hparts := congrArg utf8Length (List.takeWhile_append_dropWhile (p := (· ≠ '<')) (l := text))
  rw [Text.utf8Length_append] at hparts
  rcases hcontent : unescape (String.ofList (text.takeWhile (· ≠ '<'))) with error | piece
  · rw [Event.weight]
    omega
  · have hpiece := utf8ByteSize_unescape hcontent
    rw [utf8ByteSize_ofList] at hpiece
    rw [Event.weight]
    omega

/-- **What an event carries stands in the text it was read from.** -/
theorem weight_next {text rest : List Char} {e : Event} (h : Event.next text = .event e rest) :
    e.weight + utf8Length rest ≤ utf8Length text := by
  cases text with
  | nil => cases h
  | cons c text =>
    simp only [Event.next] at h
    split at h
    · next hc =>
      have hangle : Char.utf8Size '<' = 1 := by decide
      -- the bracket pays the first of the bytes that tags are charged
      rw [Text.utf8Length_cons, hc]
      cases text with
      | nil => cases h
      | cons d tail =>
        have hd := Char.utf8Size_pos d
        simp only [readMarkup] at h
        split at h
        · have hdeclaration := weight_readDeclaration h
          rw [Text.utf8Length_cons]
          omega
        · split at h
          · simp only [readClosing] at h
            cases h
            have hrest := utf8Length_splitAtAngle tail
            rw [Event.weight, Text.utf8Length_cons]
            omega
          · split at h
            · simp only [readInstruction] at h
              split at h
              · cases h
                have hrest := utf8Length_splitAtAngle tail
                rw [Event.weight, Text.utf8Length_cons]
                omega
              · cases h
            · have htag := weight_readTag h
              omega
    · exact weight_readText _ e rest h

/-! ### What a tree weighs -/

mutual

/-- For every element of a tree the bytes of its name and of its text, and three more. -/
def Element.bytes : Element → Nat
  | ⟨name, text, children⟩ =>
    name.utf8ByteSize + text.utf8ByteSize + 3 + Element.bytesIn children

def Element.bytesIn : List Element → Nat
  | [] => 0
  | child :: rest => Element.bytes child + Element.bytesIn rest

end

namespace Element

theorem bytesIn_append (front back : List Element) :
    bytesIn (front ++ back) = bytesIn front + bytesIn back := by
  induction front with
  | nil => simp [bytesIn]
  | cons e front ih => rw [List.cons_append, bytesIn, bytesIn, ih, Nat.add_assoc]

theorem bytes_eq (e : Element) :
    e.bytes = e.name.utf8ByteSize + e.text.utf8ByteSize + 3 + bytesIn e.children := by
  cases e with
  | mk name text children => rw [bytes]

theorem bytesIn_children_le (e : Element) : bytesIn e.children ≤ e.bytes := by
  rw [bytes_eq]
  exact Nat.le_add_left _ _

theorem bytes_empty (name : String) : (empty name).bytes = name.utf8ByteSize + 3 := by
  rw [bytes_eq]
  rfl

theorem bytes_le_of_mem {e : Element} {trees : List Element} (h : e ∈ trees) :
    e.bytes ≤ bytesIn trees := by
  obtain ⟨front, back, rfl⟩ := List.append_of_mem h
  rw [bytesIn_append, bytesIn]
  omega

theorem bytes_child? {e child : Element} {name : String} (h : e.child? name = some child) :
    child.bytes ≤ e.bytes :=
  Nat.le_trans (bytes_le_of_mem (List.mem_of_find?_eq_some h)) (bytesIn_children_le e)

mutual

theorem bytes_find? (e : Element) {found : Element} {name : String}
    (h : e.find? name = some found) : found.bytes ≤ e.bytes := by
  cases e with
  | mk own text children =>
    rw [find?] at h
    split at h
    · cases h
      exact Nat.le_refl _
    · exact Nat.le_trans (bytes_findIn? children h) (bytesIn_children_le ⟨own, text, children⟩)

theorem bytes_findIn? (trees : List Element) {found : Element} {name : String}
    (h : findIn? name trees = some found) : found.bytes ≤ bytesIn trees := by
  cases trees with
  | nil => cases h
  | cons tree rest =>
    rw [bytesIn]
    rw [findIn?, Option.or_eq_some_iff] at h
    rcases h with hfirst | ⟨-, hrest⟩
    · exact Nat.le_trans (bytes_find? tree hfirst) (Nat.le_add_right _ _)
    · exact Nat.le_trans (bytes_findIn? rest hrest) (Nat.le_add_left _ _)

end

end Element

namespace Builder

open Element (bytesIn bytes_eq bytesIn_append)

/-- What the open elements weigh so far. -/
def openBytes : List Element → Nat
  | [] => 0
  | e :: outer =>
    e.name.utf8ByteSize + e.text.utf8ByteSize + 2 + bytesIn e.children + openBytes outer

/-- What a builder holds weighs as much as was charged for it. -/
def bytes (b : Builder) : Nat :=
  openBytes b.opened + b.root.elim 0 Element.bytes

variable {b b' : Builder}

theorem bytes_attach {e : Element} (h : b.attach e = .ok b') :
    b'.bytes = b.bytes + e.bytes := by
  rcases b with ⟨_ | ⟨parent, outer⟩, _ | root⟩
  · cases h
    simp [bytes, openBytes]
  · cases h
  all_goals
    cases h
    simp only [bytes, openBytes, Element.appendChild, bytesIn_append, bytesIn]
    omega

theorem bytes_appendText_le (b : Builder) (piece : String) :
    (b.appendText piece).bytes ≤ b.bytes + piece.utf8ByteSize := by
  rcases b with ⟨_ | ⟨innermost, outer⟩, root⟩
  · exact Nat.le_add_right _ _
  · simp only [bytes, appendText, openBytes, Element.appendText, String.utf8ByteSize_append]
    omega

/-- **One event adds no more than it is charged.** -/
theorem bytes_accept {e : Event} (h : b.accept e = .ok b') : b'.bytes ≤ b.bytes + e.weight := by
  cases e with
  | opening name =>
    rw [accept_opening] at h
    split at h
    · cases h
    · cases h
      simp only [bytes, openBytes, Element.empty, bytesIn, Event.weight]
      simp
      omega
  | selfClosed name =>
    rw [bytes_attach h, Element.bytes_empty, Event.weight]
  | closing written =>
    obtain ⟨innermost, outer, hopened, -, hattach⟩ := closing_of_accept h
    -- an open element was charged two bytes for its tags; the end tag pays the third
    rw [bytes_attach hattach, bytes_eq, Event.weight]
    simp only [bytes, hopened, openBytes]
    omega
  | text content =>
    simp only [accept_text, feed] at h
    split at h
    · cases h
      exact Nat.le_add_right _ _
    · cases content with
      | error error => cases h
      | ok piece =>
        cases h
        exact bytes_appendText_le b piece
  | literal piece =>
    cases h
    exact bytes_appendText_le b piece
  | ignored =>
    cases h
    exact Nat.le_refl _

/-- **A tree weighs no more than what was read before and the text that is left.** -/
theorem bytes_read {text : List Char} {root : Element} (h : b.read text = .ok root) :
    root.bytes ≤ b.bytes + utf8Length text := by
  refine read_induction (motive := fun b text => root.bytes ≤ b.bytes + utf8Length text) ?_ ?_
    b text h
  · intro b text _ hfinish
    rw [bytes, root_of_finish hfinish]
    change root.bytes ≤ _ + root.bytes + _
    omega
  · intro b text e rest b' hnext haccept _ ih
    have hevent := bytes_accept haccept
    have hconsumed := weight_next hnext
    omega

end Builder

theorem Element.bytes_parse {document : String} {root : Element}
    (h : parse document = .ok root) : root.bytes ≤ document.utf8ByteSize := by
  rw [parse_eq_read] at h
  have hread := Builder.bytes_read h
  have hmark : (afterMark document.toList).Sublist document.toList := by
    unfold afterMark
    split
    · exact List.drop_sublist _ _
    · exact List.Sublist.refl _
  have hlength := utf8Length_of_sublist hmark
  have hstart : Builder.start.bytes = 0 := rfl
  rw [Text.utf8Length_toList] at hlength
  omega

end Markup

end XmlRpc
