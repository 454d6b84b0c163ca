/-
  XmlRpc/Proofs/WrittenPieces.lean
  ================================
  **Each piece of markup is read as it was written.**

  For every kind of piece there is a condition on what stands in it under which
  `Event.next` takes exactly that piece off the text:

    * a start tag ends at its own `>` if every quote in it is closed and no `>`
      stands outside quotes (`next_opening`, `next_selfClosed`);
    * an end tag gives back a name without `>` and without separators
      (`next_closing`, `closedName_eq_self`);
    * a comment and a literal section end at their own mark if the mark does not
      occur in them (`next_comment`, `next_literal`);
    * an instruction ends at the first `>` (`next_instruction`);
    * a run of text ends at the markup after it (`next_text`).

  A start tag may hold more than a name, and a name may hold quotes and slashes;
  `IsTagName` collects what is asked of a name for both tags of an element to
  give it back.
-/
import XmlRpc.Proofs.Continuation
import XmlRpc.Proofs.Escaping

namespace XmlRpc.Markup

/-! ### Quotes -/

/-- The quote that is open after a character. -/
def quoteStep (quote : Option Char) (c : Char) : Option Char :=
  match quote with
  | none => if c = '\x22' ∨ c = '\x27' then some c else none
  | some opened => if c = opened then none else some opened

/-- The quote that is open after a text. -/
def quoteAfter (quote : Option Char) (text : List Char) : Option Char :=
  text.foldl quoteStep quote

/-- No `>` stands outside quotes. -/
def Quiet : Option Char → List Char → Prop
  | _, [] => True
  | quote, c :: rest => (quote = none → c ≠ '>') ∧ Quiet (quoteStep quote c) rest

theorem quoteAfter_append (quote : Option Char) (a b : List Char) :
    quoteAfter quote (a ++ b) = quoteAfter (quoteAfter quote a) b := by
  simp [quoteAfter]

theorem quiet_append {quote : Option Char} {a b : List Char} :
    Quiet quote (a ++ b) ↔ Quiet quote a ∧ Quiet (quoteAfter quote a) b := by
  induction a generalizing quote with
  | nil => simp [Quiet, quoteAfter]
  | cons c a ih =>
    simp only [List.cons_append, Quiet, ih, and_assoc]
    rfl

theorem quiet_of_not_mem {quote : Option Char} {text : List Char} (h : '>' ∉ text) :
    Quiet quote text := by
  induction text generalizing quote with
  | nil => trivial
  | cons c text ih =>
    refine ⟨fun _ hc => h (by simp [hc]), ih fun hmem => h (by simp [hmem])⟩

/-- A text without a quote leaves the state between quotes alone. -/
theorem quoteAfter_none_of_not_mem {text : List Char} (hdouble : '\x22' ∉ text)
    (hsingle : '\x27' ∉ text) : quoteAfter none text = none := by
  induction text with
  | nil => rfl
  | cons c text ih =>
    have hc : ¬(c = '\x22' ∨ c = '\x27') := by
      rintro (rfl | rfl)
      · exact hdouble (by simp)
      · exact hsingle (by simp)
    change quoteAfter (quoteStep none c) text = none
    rw [quoteStep, if_neg hc]
    exact ih (fun h => hdouble (by simp [h])) (fun h => hsingle (by simp [h]))

theorem quoteAfter_some_of_not_mem {opened : Char} {text : List Char} (h : opened ∉ text) :
    quoteAfter (some opened) text = some opened := by
  induction text with
  | nil => rfl
  | cons c text ih =>
    have hc : c ≠ opened := fun heq => h (by simp [heq])
    change quoteAfter (quoteStep (some opened) c) text = some opened
    rw [quoteStep, if_neg hc]
    exact ih fun hmem => h (by simp [hmem])

theorem quiet_some_of_not_mem {opened : Char} {text : List Char} (h : opened ∉ text) :
    Quiet (some opened) text := by
  induction text with
  | nil => trivial
  | cons c text ih =>
    have hc : c ≠ opened := fun heq => h (by simp [heq])
    refine ⟨fun hnone => (Option.some_ne_none _ hnone).elim, ?_⟩
    rw [quoteStep, if_neg hc]
    exact ih fun hmem => h (by simp [hmem])

/-- The search for the end of a tag goes past a text that has no end of its own. -/
theorem splitTag?_quiet {quote : Option Char} {text : List Char} (h : Quiet quote text)
    (more : List Char) :
    splitTag? quote (text ++ more) =
      (splitTag? (quoteAfter quote text) more).map fun parts => (text ++ parts.1, parts.2) := by
  induction text generalizing quote with
  | nil =>
    change splitTag? quote more = (splitTag? quote more).map fun parts => parts
    simp
  | cons c text ih =>
    obtain ⟨hc, htext⟩ := h
    change splitTag? quote (c :: (text ++ more)) =
      (splitTag? (quoteAfter (quoteStep quote c) text) more).map _
    cases quote with
    | none =>
      rw [splitTag?, if_neg (hc rfl), show (if c = '\x22' ∨ c = '\x27' then some c else none) =
        quoteStep none c from rfl, ih htext, Option.map_map]
      rfl
    | some opened =>
      rw [splitTag?, show (if c = opened then none else some opened) =
        quoteStep (some opened) c from rfl, ih htext, Option.map_map]
      rfl

theorem splitTag?_closed {text : List Char} (hquiet : Quiet none text)
    (hquotes : quoteAfter none text = none) (rest : List Char) :
    splitTag? none (text ++ '>' :: rest) = some (text, rest) := by
  rw [splitTag?_quiet hquiet, hquotes]
  simp [splitTag?]

/-! ### Names -/

/-- The names that the tags of an element give back as they are written. -/
structure IsTagName (name : String) : Prop where
  whole : ∀ c ∈ name.toList, isSeparator c = false
  start : ∀ c ∈ name.toList.head?, c ≠ '!' ∧ c ≠ '/' ∧ c ≠ '?'
  angle : '>' ∉ name.toList
  quotes : quoteAfter none name.toList = none
  last : name.toList.getLast? ≠ some '/'

/-- The ASCII blanks, the quotes, and the characters that tags are made of. -/
def markupChars : List Char :=
  [' ', '\t', '\n', '\r', '\x0c', '\x22', '\x27', '<', '>', '/', '!', '?']

theorem isTagName_of_plain {name : String} (h : ∀ c ∈ name.toList, c ∉ markupChars) :
    IsTagName name := by
  have hnot : ∀ d ∈ markupChars, d ∉ name.toList := fun d hd hmem => h d hmem hd
  have hne : ∀ c ∈ name.toList, ∀ d ∈ markupChars, c ≠ d := by
    rintro c hc d hd rfl
    exact h c hc hd
  refine ⟨?_, ?_, hnot '>' (by decide), ?_, ?_⟩
  · intro c hc
    have hblank := hne c hc
    simp [isSeparator, hblank ' ' (by decide), hblank '\r' (by decide), hblank '\n' (by decide),
      hblank '\t' (by decide)]
  · intro c hc
    have hstart := hne c (List.mem_of_mem_head? hc)
    exact ⟨hstart '!' (by decide), hstart '/' (by decide), hstart '?' (by decide)⟩
  · exact quoteAfter_none_of_not_mem (hnot '\x22' (by decide)) (hnot '\x27' (by decide))
  · intro hlast
    exact hnot '/' (by decide) (List.mem_of_getLast? hlast)

/-- A name that does not end in a blank stays as it is, and so does one of blanks alone. -/
theorem withoutEnd_eq_self {blank : Char → Bool} {name : String}
    (h : ∀ c ∈ name.toList.getLast?, blank c = true → ∀ d ∈ name.toList, blank d = true) :
    withoutEnd blank name = name := by
  simp only [withoutEnd, List.reverse_eq_nil_iff]
  split
  · rfl
  · next hsome =>
    have hrev : name.toList.reverse.dropWhile blank = name.toList.reverse := by
      rcases hchars : name.toList.reverse with _ | ⟨c, rest⟩
      · rfl
      · have hlast : c ∈ name.toList.getLast? := by
          rw [← List.head?_reverse, hchars]
          rfl
        rw [List.dropWhile_cons, if_neg]
        intro hc
        refine hsome (List.dropWhile_eq_nil_iff.2 ?_)
        exact fun d hd => h c hlast hc d (List.mem_reverse.1 hd)
    rw [hrev, List.reverse_reverse, String.ofList_toList]

/-- Only separators are taken off the name of an end tag. -/
theorem closedName_eq_self {name : String} (h : ∀ c ∈ name.toList, isSeparator c = false) :
    closedName name = name := by
  refine withoutEnd_eq_self ?_
  intro c hc hblank
  rw [h c (List.mem_of_getLast? hc)] at hblank
  cases hblank

theorem takeWhile_name {name : List Char} (h : ∀ c ∈ name, isSeparator c = false)
    {more : List Char} (hmore : ∀ c ∈ more.head?, isSeparator c = true) :
    (name ++ more).takeWhile (!isSeparator ·) = name := by
  have hname : ∀ c ∈ name, (!isSeparator c) = true := fun c hc => by rw [h c hc]; rfl
  rw [List.takeWhile_append_of_pos hname]
  rcases more with _ | ⟨c, rest⟩
  · simp
  · have hc : isSeparator c = true := hmore c rfl
    rw [List.takeWhile_cons, if_neg (by rw [hc]; simp), List.append_nil]

/-! ### Tags -/

theorem next_tag {c : Char} (hc : c ≠ '!' ∧ c ≠ '/' ∧ c ≠ '?') (rest : List Char) :
    Event.next ('<' :: c :: rest) = readTag (c :: rest) := by
  obtain ⟨hbang, hslash, hquestion⟩ := hc
  simp [Event.next, readMarkup, hbang, hslash, hquestion]

/-- A tag that has one `>` outside quotes, at its end, is read up to there. -/
theorem next_of_content {content : List Char} (hstart : ∀ c ∈ content.head?,
    c ≠ '!' ∧ c ≠ '/' ∧ c ≠ '?') (hquiet : Quiet none content)
    (hquotes : quoteAfter none content = none) (rest : List Char) :
    Event.next ('<' :: (content ++ '>' :: rest)) = .event (tagEvent content) rest := by
  have hread : readTag (content ++ '>' :: rest) = .event (tagEvent content) rest := by
    rw [readTag, splitTag?_closed hquiet hquotes]
  rcases content with _ | ⟨c, content⟩
  · rw [List.nil_append] at hread ⊢
    rw [next_tag (by decide), hread]
  · rw [List.cons_append] at hread ⊢
    rw [next_tag (hstart c rfl), hread]

theorem splitAtAngle_mark {text : List Char} (h : '>' ∉ text) (rest : List Char) :
    splitAtAngle (text ++ '>' :: rest) = (text, rest) := by
  have hpass : ∀ c ∈ text, decide (c ≠ '>') = true := by
    intro c hc
    rw [decide_eq_true_eq]
    rintro rfl
    exact h hc
  rw [splitAtAngle, List.takeWhile_append_of_pos hpass, List.dropWhile_append_of_pos hpass]
  simp

theorem next_closing {name : String} (h : '>' ∉ name.toList) (rest : List Char) :
    Event.next ('<' :: '/' :: (name.toList ++ '>' :: rest)) = .event (.closing name) rest := by
  change readClosing (name.toList ++ '>' :: rest) = _
  simp only [readClosing, splitAtAngle_mark h, String.ofList_toList]

/-! ### Attributes -/

/-- Attributes as they are written in a tag after its name. -/
def writtenAttributes (attributes : List (String × String)) : List Char :=
  attributes.flatMap fun a =>
    ' ' :: (a.1.toList ++ '=' :: '\x22' :: (a.2.toList ++ ['\x22']))

/-- An attribute with a key that opens no quote and a value that can stand between quotes. -/
structure IsAttribute (a : String × String) : Prop where
  angle : '>' ∉ a.1.toList
  quotes : quoteAfter none a.1.toList = none
  value : '\x22' ∉ a.2.toList

theorem quiet_attribute {a : String × String} (h : IsAttribute a) :
    Quiet none (' ' :: (a.1.toList ++ '=' :: '\x22' :: (a.2.toList ++ ['\x22']))) ∧
      quoteAfter none (' ' :: (a.1.toList ++ '=' :: '\x22' :: (a.2.toList ++ ['\x22']))) =
        none := by
  have hvalue : Quiet (some '\x22') (a.2.toList ++ ['\x22']) := by
    rw [quiet_append, quoteAfter_some_of_not_mem h.value]
    exact ⟨quiet_some_of_not_mem h.value, by simp [Quiet]⟩
  have hafter : quoteAfter (some '\x22') (a.2.toList ++ ['\x22']) = none := by
    rw [quoteAfter_append, quoteAfter_some_of_not_mem h.value]
    rfl
  constructor
  · refine ⟨by simp, ?_⟩
    change Quiet none _
    rw [quiet_append, h.quotes]
    exact ⟨quiet_of_not_mem h.angle, by simp, by simp, hvalue⟩
  · change quoteAfter none (a.1.toList ++ _) = none
    rw [quoteAfter_append, h.quotes]
    exact hafter

theorem quiet_writtenAttributes {attributes : List (String × String)}
    (h : ∀ a ∈ attributes, IsAttribute a) :
    Quiet none (writtenAttributes attributes) ∧
      quoteAfter none (writtenAttributes attributes) = none := by
  induction attributes with
  | nil => exact ⟨trivial, rfl⟩
  | cons a attributes ih =>
    obtain ⟨hquiet, hafter⟩ := quiet_attribute (h a (by simp))
    obtain ⟨hquiets, hafters⟩ := ih fun a' ha' => h a' (by simp [ha'])
    rw [writtenAttributes, List.flatMap_cons]
    rw [quiet_append, quoteAfter_append, hafter]
    exact ⟨⟨hquiet, hquiets⟩, hafters⟩

theorem head_writtenAttributes (attributes : List (String × String)) :
    ∀ c ∈ (writtenAttributes attributes).head?, isSeparator c = true := by
  rcases attributes with _ | ⟨a, attributes⟩
  · simp [writtenAttributes]
  · intro c hc
    obtain rfl : ' ' = c := by simpa [writtenAttributes] using hc
    decide

/-- What stands in the tag of an element with attributes. -/
def tagContent (name : String) (attributes : List (String × String)) : List Char :=
  name.toList ++ writtenAttributes attributes

section Tags

variable {name : String} {attributes : List (String × String)}

theorem quiet_tagContent (hname : IsTagName name) (hattributes : ∀ a ∈ attributes, IsAttribute a) :
    Quiet none (tagContent name attributes) ∧
      quoteAfter none (tagContent name attributes) = none := by
  obtain ⟨hquiet, hafter⟩ := quiet_writtenAttributes hattributes
  rw [tagContent, quiet_append, quoteAfter_append, hname.quotes]
  exact ⟨⟨quiet_of_not_mem hname.angle, hquiet⟩, hafter⟩

theorem start_tagContent (hname : IsTagName name) :
    ∀ c ∈ (tagContent name attributes).head?, c ≠ '!' ∧ c ≠ '/' ∧ c ≠ '?' := by
  intro c hc
  rw [tagContent, List.head?_append] at hc
  rcases hhead : name.toList.head? with _ | d
  · rw [hhead] at hc
    have hsep := head_writtenAttributes attributes c hc
    refine ⟨?_, ?_, ?_⟩ <;> rintro rfl <;> exact absurd hsep (by decide)
  · rw [hhead] at hc
    obtain rfl : d = c := by simpa using hc
    exact hname.start d hhead

theorem getLast?_tagContent (hname : IsTagName name) :
    (tagContent name attributes).getLast? ≠ some '/' := by
  rcases List.eq_nil_or_concat attributes with rfl | ⟨front, a, rfl⟩
  · simpa [tagContent, writtenAttributes] using hname.last
  · have hlast : (tagContent name (front ++ [a])).getLast? = some '\x22' := by
      have hsplit : tagContent name (front ++ [a]) =
          (name.toList ++ writtenAttributes front ++
            ' ' :: (a.1.toList ++ '=' :: '\x22' :: a.2.toList)) ++ ['\x22'] := by
        simp [tagContent, writtenAttributes]
      rw [hsplit, List.getLast?_concat]
    rw [List.concat_eq_append, hlast]
    decide

theorem takeWhile_tagContent (hname : IsTagName name) :
    (tagContent name attributes).takeWhile (!isSeparator ·) = name.toList :=
  takeWhile_name hname.whole (head_writtenAttributes attributes)

/-- A start tag gives back its name. -/
theorem next_opening (hname : IsTagName name) (hattributes : ∀ a ∈ attributes, IsAttribute a)
    (rest : List Char) :
    Event.next ('<' :: (tagContent name attributes ++ '>' :: rest)) =
      .event (.opening name) rest := by
  obtain ⟨hquiet, hafter⟩ := quiet_tagContent hname hattributes
  rw [next_of_content (start_tagContent hname) hquiet hafter, tagEvent,
    if_neg (getLast?_tagContent hname), takeWhile_tagContent hname, String.ofList_toList]

/-- So does the tag of an element without content, if there is a name. -/
theorem next_selfClosed (hname : IsTagName name) (hne : name ≠ "")
    (hattributes : ∀ a ∈ attributes, IsAttribute a) (rest : List Char) :
    Event.next ('<' :: (tagContent name attributes ++ '/' :: '>' :: rest)) =
      .event (.selfClosed name) rest := by
  obtain ⟨hquiet, hafter⟩ := quiet_tagContent hname hattributes
  have hstart : ∀ c ∈ (tagContent name attributes ++ ['/']).head?,
      c ≠ '!' ∧ c ≠ '/' ∧ c ≠ '?' := by
    rcases hcontent : tagContent name attributes with _ | ⟨c, content⟩
    · have hchars : name.toList = [] := (List.append_eq_nil_iff.1 hcontent).1
      exact (hne (by rw [← String.toList_inj, hchars]; rfl)).elim
    · rw [List.cons_append, List.head?_cons, ← List.head?_cons, ← hcontent]
      exact start_tagContent hname
  have hread := next_of_content hstart (quiet_append.2 ⟨hquiet, by rw [hafter]; simp [Quiet]⟩)
    (by rw [quoteAfter_append, hafter]; rfl) rest
  rw [List.append_assoc] at hread
  rw [show '/' :: '>' :: rest = ['/'] ++ '>' :: rest from rfl, hread, tagEvent,
    if_pos (by simp), List.dropLast_concat, takeWhile_tagContent hname, String.ofList_toList]

end Tags

/-! ### Comments, literal sections and instructions -/

/-- The search goes to the first `>` that may end the piece. -/
theorem splitWhere?_of_first {ready : List Char → Bool} {seen text : List Char}
    (hnot : ∀ a b, text = a ++ '>' :: b → ready (a.reverse ++ seen) = false)
    (hready : ready (text.reverse ++ seen) = true) (rest : List Char) :
    splitWhere? ready seen (text ++ '>' :: rest) = some (seen.reverse ++ text, rest) := by
  induction text generalizing seen with
  | nil =>
    rw [List.nil_append, splitWhere?, if_pos ⟨rfl, by simpa using hready⟩, List.append_nil]
  | cons c text ih =>
    have hc : ¬(c = '>' ∧ ready seen = true) := by
      rintro ⟨rfl, htrue⟩
      have hfalse := hnot [] text rfl
      rw [List.reverse_nil, List.nil_append, htrue] at hfalse
      cases hfalse
    have hlonger : ∀ a b, text = a ++ '>' :: b → ready (a.reverse ++ c :: seen) = false := by
      intro a b hab
      have hfalse := hnot (c :: a) b (by rw [hab]; rfl)
      simpa using hfalse
    rw [List.cons_append, splitWhere?, if_neg hc, ih hlonger (by simpa using hready)]
    simp

/-- If a `>` stands in a piece right after `mark`, and not in its `tail`, then the rest of the piece
    holds the two together. -/
theorem infix_of_split {text tail a b mark : List Char} (htail : '>' ∉ tail)
    (h : text ++ tail = a ++ mark ++ '>' :: b) : mark ++ ['>'] <:+: text := by
  rcases List.append_eq_append_iff.1 h with ⟨c, hsplit, heq⟩ | ⟨c, hsplit, heq⟩
  · exact (htail (by rw [heq]; simp)).elim
  · rcases c with _ | ⟨d, c⟩
    · exact (htail (by rw [← List.nil_append tail, ← heq]; simp)).elim
    · cases heq
      exact ⟨a, c, by rw [hsplit]; simp⟩

theorem endsComment_iff {seen : List Char} :
    endsComment seen = true ↔ ∃ x y more, seen = '-' :: '-' :: x :: y :: more := by
  constructor
  · intro h
    unfold endsComment at h
    split at h
    · next x y more => exact ⟨x, y, more, rfl⟩
    · cases h
  · rintro ⟨x, y, more, rfl⟩
    rfl

theorem endsLiteral_iff {seen : List Char} :
    endsLiteral seen = true ↔ ∃ more, seen = ']' :: ']' :: more := by
  constructor
  · intro h
    unfold endsLiteral at h
    split at h
    · next more => exact ⟨more, rfl⟩
    · cases h
  · rintro ⟨more, rfl⟩
    rfl

theorem next_comment {content : String} (h : ¬['-', '-', '>'] <:+: content.toList)
    (rest : List Char) :
    Event.next ('<' :: '!' :: '-' :: '-' :: (content.toList ++ '-' :: '-' :: '>' :: rest)) =
      .event .ignored rest := by
  have hready : endsComment (('-' :: '-' :: (content.toList ++ ['-', '-'])).reverse ++ []) =
      true := by
    rw [endsComment_iff]
    rcases hchars : content.toList.reverse with _ | ⟨x, _ | ⟨y, more⟩⟩
    · exact ⟨'-', '-', [], by simp [hchars]⟩
    · exact ⟨x, '-', ['-'], by simp [hchars]⟩
    · exact ⟨x, y, more ++ ['-', '-'], by simp [hchars]⟩
  have hnot : ∀ a b, '-' :: '-' :: (content.toList ++ ['-', '-']) = a ++ '>' :: b →
      endsComment (a.reverse ++ []) = false := by
    intro a b hab
    rw [Bool.eq_false_iff]
    intro htrue
    obtain ⟨x, y, more, ha⟩ := endsComment_iff.1 htrue
    have ha' : a = more.reverse ++ [y, x] ++ ['-', '-'] := by
      rw [← List.reverse_reverse a, ← List.append_nil a.reverse, ha]
      simp
    -- the two hyphens after the `<!` are not the two before this `>`
    rcases hfront : more.reverse ++ [y, x] with _ | ⟨c, _ | ⟨d, front⟩⟩
    · simp at hfront
    · rcases hmore : more.reverse with _ | ⟨e, more'⟩ <;> rw [hmore] at hfront <;> simp at hfront
    · rw [ha', hfront] at hab
      have hinner : content.toList ++ ['-', '-'] = front ++ ['-', '-'] ++ '>' :: b := by
        simpa using (List.cons.inj (List.cons.inj hab).2).2
      exact h (infix_of_split (by decide) hinner)
  have hsplit := splitWhere?_of_first hnot hready rest
  have htext : '-' :: '-' :: (content.toList ++ '-' :: '-' :: '>' :: rest) =
      '-' :: '-' :: (content.toList ++ ['-', '-']) ++ '>' :: rest := by simp
  change readComment ('-' :: '-' :: (content.toList ++ '-' :: '-' :: '>' :: rest)) = _
  rw [readComment, htext, hsplit]
  rfl

theorem next_literal {content : String} (h : ¬[']', ']', '>'] <:+: content.toList)
    (rest : List Char) :
    Event.next ('<' :: '!' :: (literalKeyword ++ (content.toList ++ ']' :: ']' :: '>' :: rest))) =
      .event (.literal content) rest := by
  have hready : endsLiteral ((literalKeyword ++ (content.toList ++ [']', ']'])).reverse ++ []) =
      true := by
    rw [endsLiteral_iff]
    exact ⟨content.toList.reverse ++ literalKeyword.reverse, by simp⟩
  have hnot : ∀ a b, literalKeyword ++ (content.toList ++ [']', ']']) = a ++ '>' :: b →
      endsLiteral (a.reverse ++ []) = false := by
    intro a b hab
    rw [Bool.eq_false_iff]
    intro htrue
    obtain ⟨more, ha⟩ := endsLiteral_iff.1 htrue
    have ha' : a = more.reverse ++ [']', ']'] := by
      rw [← List.reverse_reverse a, ← List.append_nil a.reverse, ha]
      simp
    rw [ha', List.append_assoc] at hab
    -- the brackets before this `>` stand after the keyword, which holds no `]`
    rcases List.append_eq_append_iff.1 hab with ⟨front, -, hinner⟩ | ⟨front, hkeyword, hinner⟩
    · rw [← List.append_assoc] at hinner
      exact h (infix_of_split (by decide) hinner)
    · rcases front with _ | ⟨c, front⟩
      · have hinner' : content.toList ++ [']', ']'] = [] ++ [']', ']'] ++ '>' :: b := hinner.symm
        exact h (infix_of_split (by decide) hinner')
      · obtain rfl : ']' = c := (List.cons.inj hinner).1
        have hmem : ']' ∈ literalKeyword := by
          rw [hkeyword]
          simp
        exact absurd hmem (by decide)
  have hsplit := splitWhere?_of_first hnot hready rest
  have htext : literalKeyword ++ (content.toList ++ ']' :: ']' :: '>' :: rest) =
      literalKeyword ++ (content.toList ++ [']', ']']) ++ '>' :: rest := by simp
  change readLiteral (literalKeyword ++ (content.toList ++ ']' :: ']' :: '>' :: rest)) = _
  rw [readLiteral, htext, hsplit]
  have hinner : (literalKeyword ++ (content.toList ++ [']', ']'])).take
      ((literalKeyword ++ (content.toList ++ [']', ']'])).length - 2) =
        literalKeyword ++ content.toList := by
    rw [← List.append_assoc]
    exact List.take_left' (by simp; omega)
  have hstart : startsWith literalKeyword (literalKeyword ++ content.toList) = true := by
    rw [startsWith, List.take_left]
    exact decide_eq_true rfl
  simp only [List.reverse_nil, List.nil_append, hinner]
  rw [if_pos hstart, List.drop_left, String.ofList_toList]

theorem next_instruction {content : String} (hne : content ≠ "") (h : '>' ∉ content.toList)
    (rest : List Char) :
    Event.next ('<' :: '?' :: (content.toList ++ '?' :: '>' :: rest)) =
      .event .ignored rest := by
  have hmark : '>' ∉ content.toList ++ ['?'] := by
    rw [List.mem_append, not_or]
    exact ⟨h, by decide⟩
  have hsplit := splitAtAngle_mark hmark rest
  have hends : (content.toList ++ ['?']).getLast? = some '?' ∧
      2 ≤ (content.toList ++ ['?']).length := by
    refine ⟨List.getLast?_concat, ?_⟩
    rw [List.length_append]
    have hpos : 0 < content.toList.length := by
      rw [List.length_pos_iff]
      intro hnil
      exact hne (by rw [← String.toList_inj, hnil]; rfl)
    exact Nat.add_le_add hpos (Nat.le_refl 1)
  rw [List.append_assoc] at hsplit
  change readInstruction (content.toList ++ (['?'] ++ '>' :: rest)) = _
  rw [readInstruction, hsplit]
  exact if_pos hends

/-! ### Runs of text -/

theorem ne_of_mem_escapeChars (content : String) :
    ∀ c ∈ escapeChars content, decide (c ≠ '<') = true := by
  intro c hc
  rw [decide_eq_true_eq]
  rintro rfl
  exact not_mem_escapeChars content hc

/-- Escaped text is a run of its own before the next piece of markup. -/
theorem next_text {content : String} (hne : content ≠ "") (rest : List Char) :
    Event.next (escapeChars content ++ '<' :: rest) =
      .event (.text (.ok content)) ('<' :: rest) := by
  have hpass := ne_of_mem_escapeChars content
  have htake : (escapeChars content ++ '<' :: rest).takeWhile (· ≠ '<') = escapeChars content := by
    rw [List.takeWhile_append_of_pos hpass]
    simp
  have hdrop : (escapeChars content ++ '<' :: rest).dropWhile (· ≠ '<') = '<' :: rest := by
    rw [List.dropWhile_append_of_pos hpass]
    simp
  have hread : readText (escapeChars content ++ '<' :: rest) =
      .event (.text (.ok content)) ('<' :: rest) := by
    rw [readText, htake, hdrop, ← toList_escape, String.ofList_toList, unescape_escape]
  rcases hchars : escapeChars content with _ | ⟨c, chars⟩
  · exact (hne (escapeChars_eq_nil hchars)).elim
  · have hc : c ≠ '<' := by
      rintro rfl
      exact not_mem_escapeChars content (by rw [hchars]; exact List.mem_cons_self)
    rw [hchars, List.cons_append] at hread
    rw [List.cons_append, Event.next, if_neg hc, hread]

end XmlRpc.Markup
