/-
  XmlRpc/Proofs/Continuation.lean
  ===============================
  **What comes after a piece does not change it.**

  The first event of a text stays the first event of every longer text that
  begins with it, and what is left grows by what was added.  Three kinds of piece
  are exceptions, because they may end with the text instead of by a mark of
  their own: a run of text, an instruction, and an end tag.  Such a piece can only
  be the last one of the shorter text, and in the longer text it is of the same
  kind.  `next_append` says this for all events at once.

  What is left after an event is the end of the text (`suffix_of_next`), so how a text
  ends is known after each of its events.
-/
import Mathlib.Data.List.TakeWhile
import XmlRpc.Proofs.Reading

namespace XmlRpc.Markup

/-! ### Pieces up to a mark -/

theorem takeWhile_append_of_stop {p : Char → Bool} {text : List Char}
    (h : text.dropWhile p ≠ []) (more : List Char) :
    (text ++ more).takeWhile p = text.takeWhile p ∧
      (text ++ more).dropWhile p = text.dropWhile p ++ more := by
  induction text with
  | nil => exact (h rfl).elim
  | cons c text ih =>
    by_cases hc : p c = true
    · simp only [List.dropWhile_cons, hc, if_true] at h
      simpa [hc] using ih h
    · simp [hc]

/-- A `>` that was found stays where it is. -/
theorem splitAtAngle_append {text : List Char} (h : '>' ∈ text) (more : List Char) :
    splitAtAngle (text ++ more) =
      ((splitAtAngle text).1, (splitAtAngle text).2 ++ more) := by
  have hstop : text.dropWhile (· ≠ '>') ≠ [] := by
    intro hnil
    have hall := List.dropWhile_eq_nil_iff.1 hnil '>' h
    simp at hall
  obtain ⟨htake, hdrop⟩ := takeWhile_append_of_stop hstop more
  rw [splitAtAngle, splitAtAngle, htake, hdrop]
  rcases hrest : text.dropWhile (· ≠ '>') with _ | ⟨c, rest⟩
  · exact (hstop hrest).elim
  · rfl

/-- Without a `>` a piece takes all there is. -/
theorem splitAtAngle_of_not_mem {text : List Char} (h : '>' ∉ text) :
    splitAtAngle text = (text, []) := by
  have hall : ∀ c ∈ text, (decide (c ≠ '>')) = true := by
    intro c hc
    rw [decide_eq_true_eq]
    rintro rfl
    exact h hc
  rw [splitAtAngle, List.takeWhile_eq_self_iff.2 hall, List.dropWhile_eq_nil_iff.2 hall]
  rfl

theorem splitWhere?_append {ready : List Char → Bool} {seen text content rest : List Char}
    (h : splitWhere? ready seen text = some (content, rest)) (more : List Char) :
    splitWhere? ready seen (text ++ more) = some (content, rest ++ more) := by
  induction text generalizing seen with
  | nil => cases h
  | cons c text ih =>
    simp only [splitWhere?, List.cons_append] at h ⊢
    split at h
    · next hend =>
      rw [if_pos hend]
      cases h
      rfl
    · next hend =>
      rw [if_neg hend]
      exact ih h

theorem splitTag?_append {quote : Option Char} {text content rest : List Char}
    (h : splitTag? quote text = some (content, rest)) (more : List Char) :
    splitTag? quote (text ++ more) = some (content, rest ++ more) := by
  induction text generalizing quote content with
  | nil => cases h
  | cons c text ih =>
    cases quote with
    | none =>
      simp only [splitTag?, List.cons_append] at h ⊢
      split at h
      · next hc =>
        rw [if_pos hc]
        cases h
        rfl
      · next hc =>
        rw [if_neg hc]
        obtain ⟨parts, hparts, heq⟩ := Option.map_eq_some_iff.1 h
        cases heq
        rw [ih hparts]
        rfl
    | some opened =>
      simp only [splitTag?, List.cons_append] at h ⊢
      obtain ⟨parts, hparts, heq⟩ := Option.map_eq_some_iff.1 h
      cases heq
      rw [ih hparts]
      rfl

/-! ### Each kind of piece -/

theorem readTag_append {text rest : List Char} {e : Event} (h : readTag text = .event e rest)
    (more : List Char) : readTag (text ++ more) = .event e (rest ++ more) := by
  unfold readTag at h ⊢
  rcases hsplit : splitTag? none text with _ | ⟨content, left⟩
  · rw [hsplit] at h
    cases h
  · rw [hsplit] at h
    cases h
    rw [splitTag?_append hsplit more]

theorem readComment_append {text rest : List Char} {e : Event}
    (h : readComment text = .event e rest) (more : List Char) :
    readComment (text ++ more) = .event e (rest ++ more) := by
  unfold readComment at h ⊢
  rcases hsplit : splitWhere? endsComment [] text with _ | ⟨content, left⟩
  · rw [hsplit] at h
    cases h
  · rw [hsplit] at h
    rw [splitWhere?_append hsplit more]
    dsimp only at h ⊢
    split at h
    · next hstart =>
      rw [if_pos hstart]
      cases h
      rfl
    · cases h

theorem readLiteral_append {text rest : List Char} {e : Event}
    (h : readLiteral text = .event e rest) (more : List Char) :
    readLiteral (text ++ more) = .event e (rest ++ more) := by
  unfold readLiteral at h ⊢
  rcases hsplit : splitWhere? endsLiteral [] text with _ | ⟨content, left⟩
  · rw [hsplit] at h
    cases h
  · rw [hsplit] at h
    rw [splitWhere?_append hsplit more]
    dsimp only at h ⊢
    split at h
    · next hstart =>
      rw [if_pos hstart]
      cases h
      rfl
    · cases h

theorem readDocumentType_append {text rest : List Char} {e : Event}
    (h : readDocumentType text = .event e rest) (more : List Char) :
    readDocumentType (text ++ more) = .event e (rest ++ more) := by
  unfold readDocumentType at h ⊢
  rcases hsplit : splitWhere? endsDocumentType [] text with _ | ⟨content, left⟩
  · rw [hsplit] at h
    cases h
  · rw [hsplit] at h
    rw [splitWhere?_append hsplit more]
    dsimp only at h ⊢
    split at h
    · cases h
    · next hstart =>
      rw [if_neg hstart]
      split at h
      · cases h
      · next hname =>
        rw [if_neg hname]
        cases h
        rfl

theorem readDeclaration_append {text rest : List Char} {e : Event}
    (h : readDeclaration text = .event e rest) (more : List Char) :
    readDeclaration (text ++ more) = .event e (rest ++ more) := by
  cases text with
  | nil => cases h
  | cons c text =>
    simp only [readDeclaration, List.cons_append] at h ⊢
    by_cases hliteral : c = '['
    · rw [if_pos hliteral] at h ⊢
      exact readLiteral_append h more
    · rw [if_neg hliteral] at h ⊢
      by_cases hcomment : c = '-'
      · rw [if_pos hcomment] at h ⊢
        exact readComment_append h more
      · rw [if_neg hcomment] at h ⊢
        by_cases htype : c = 'D' ∨ c = 'd'
        · rw [if_pos htype] at h ⊢
          exact readDocumentType_append h more
        · rw [if_neg htype] at h
          cases h

/-! ### The first event -/

/-- The events that the end of the text may cut short, with what the same piece is in a longer
    text: a run of text, an instruction that is ignored, or an end tag. -/
inductive CutShort (longer : List Char) : Event → Prop where
  | text (content : Except EntityError String) : CutShort longer (.text content)
  | ignored : CutShort longer .ignored
  | closing (written written' : String) (rest : List Char)
      (h : Event.next longer = .event (.closing written') rest) :
      CutShort longer (.closing written)

theorem readClosing_append {text rest : List Char} {e : Event}
    (h : readClosing text = .event e rest) (more : List Char) :
    readClosing (text ++ more) = .event e (rest ++ more) ∨
      rest = [] ∧ (∃ written, e = .closing written) ∧ '>' ∉ text := by
  simp only [readClosing, Reading.event.injEq] at h ⊢
  obtain ⟨rfl, rfl⟩ := h
  by_cases hangle : '>' ∈ text
  · exact Or.inl (by rw [splitAtAngle_append hangle]; exact ⟨rfl, rfl⟩)
  · exact Or.inr ⟨by rw [splitAtAngle_of_not_mem hangle], ⟨_, rfl⟩, hangle⟩

theorem readInstruction_append {text rest : List Char} {e : Event}
    (h : readInstruction text = .event e rest) (more : List Char) :
    readInstruction (text ++ more) = .event e (rest ++ more) ∨
      rest = [] ∧ e = .ignored ∧ '>' ∉ text := by
  simp only [readInstruction] at h ⊢
  split at h
  · next hends =>
    cases h
    by_cases hangle : '>' ∈ text
    · rw [splitAtAngle_append hangle]
      exact Or.inl (if_pos hends)
    · exact Or.inr ⟨by rw [splitAtAngle_of_not_mem hangle], rfl, hangle⟩
  · cases h

theorem readText_append {text rest : List Char} {e : Event}
    (h : readText text = .event e rest) (more : List Char) :
    readText (text ++ more) = .event e (rest ++ more) ∨
      rest = [] ∧ (∃ content, e = .text content) ∧ '<' ∉ text := by
  simp only [readText, Reading.event.injEq] at h ⊢
  obtain ⟨rfl, rfl⟩ := h
  by_cases hstop : text.dropWhile (· ≠ '<') = []
  · refine Or.inr ⟨hstop, ⟨_, rfl⟩, ?_⟩
    intro hmem
    have hall := List.dropWhile_eq_nil_iff.1 hstop '<' hmem
    simp at hall
  · obtain ⟨htake, hdrop⟩ := takeWhile_append_of_stop hstop more
    rw [htake, hdrop]
    exact Or.inl ⟨rfl, rfl⟩

/-- **The first event of a longer text.**  It is that of the shorter text, unless the end of the
    shorter text cut that one short, and then the mark that would have ended it is missing. -/
theorem next_append {text rest : List Char} {e : Event} (h : Event.next text = .event e rest)
    (more : List Char) :
    Event.next (text ++ more) = .event e (rest ++ more) ∨
      rest = [] ∧ CutShort (text ++ more) e ∧ ('<' ∉ text ∨ '>' ∉ text) := by
  cases text with
  | nil => cases h
  | cons c text =>
    simp only [Event.next, List.cons_append] at h ⊢
    by_cases hc : c = '<'
    · rw [if_pos hc] at h ⊢
      cases text with
      | nil => cases h
      | cons d text =>
        simp only [readMarkup, List.cons_append] at h ⊢
        by_cases hdecl : d = '!'
        · rw [if_pos hdecl] at h ⊢
          exact Or.inl (readDeclaration_append h more)
        · rw [if_neg hdecl] at h ⊢
          by_cases hclose : d = '/'
          · rw [if_pos hclose] at h ⊢
            rcases readClosing_append h more with hsame | ⟨hrest, ⟨written, rfl⟩, hangle⟩
            · exact Or.inl hsame
            · refine Or.inr ⟨hrest, ?_, Or.inr (by simp [hc, hclose, hangle])⟩
              -- in the longer text an end tag stands here too, with a longer name
              exact .closing written _ _ (by
                simp only [Event.next, readMarkup, if_pos hc, if_neg hdecl, if_pos hclose]
                rfl)
          · rw [if_neg hclose] at h ⊢
            by_cases hinst : d = '?'
            · rw [if_pos hinst] at h ⊢
              rcases readInstruction_append h more with hsame | ⟨hrest, rfl, hangle⟩
              · exact Or.inl hsame
              · exact Or.inr ⟨hrest, .ignored, Or.inr (by simp [hc, hinst, hangle])⟩
            · rw [if_neg hinst] at h ⊢
              exact Or.inl (readTag_append h more)
    · rw [if_neg hc] at h ⊢
      rcases readText_append h more with hsame | ⟨hrest, ⟨content, rfl⟩, hangle⟩
      · exact Or.inl hsame
      · exact Or.inr ⟨hrest, .text content, Or.inl hangle⟩

/-! ### What is left -/

theorem suffix_of_splitWhere? {ready : List Char → Bool} {seen text content rest : List Char}
    (h : splitWhere? ready seen text = some (content, rest)) : rest <:+ text := by
  induction text generalizing seen with
  | nil => cases h
  | cons c text ih =>
    unfold splitWhere? at h
    split at h
    · cases h
      exact List.suffix_cons c _
    · exact (ih h).trans (List.suffix_cons c text)

theorem suffix_of_splitTag? {quote : Option Char} {text content rest : List Char}
    (h : splitTag? quote text = some (content, rest)) : rest <:+ text := by
  induction text generalizing quote content with
  | nil => cases h
  | cons c text ih =>
    have hinner : ∀ quote, (splitTag? quote text).map (fun parts => (c :: parts.1, parts.2)) =
        some (content, rest) → rest <:+ c :: text := by
      intro quote hmap
      obtain ⟨parts, hparts, heq⟩ := Option.map_eq_some_iff.1 hmap
      cases heq
      exact (ih hparts).trans (List.suffix_cons c text)
    unfold splitTag? at h
    split at h
    · split at h
      · cases h
        exact List.suffix_cons c _
      · exact hinner _ h
    · exact hinner _ h

theorem suffix_splitAtAngle (text : List Char) : (splitAtAngle text).2 <:+ text :=
  (List.drop_suffix 1 _).trans (List.dropWhile_suffix _)

/-- A declaration ends at the first `>` at which its kind may end. -/
theorem split_of_readDeclaration {text rest : List Char} {e : Event}
    (h : readDeclaration text = .event e rest) :
    ∃ ready content, splitWhere? ready [] text = some (content, rest) := by
  cases text with
  | nil => cases h
  | cons c text =>
    simp only [readDeclaration] at h
    split at h
    · unfold readLiteral at h
      split at h
      · cases h
      · next content left hsplit =>
        dsimp only at h
        split at h
        · cases h
          exact ⟨_, content, hsplit⟩
        · cases h
    · split at h
      · unfold readComment at h
        split at h
        · cases h
        · next content left hsplit =>
          split at h
          · cases h
            exact ⟨_, content, hsplit⟩
          · cases h
      · split at h
        · unfold readDocumentType at h
          split at h
          · cases h
          · next content left hsplit =>
            split at h
            · cases h
            · split at h
              · cases h
              · cases h
                exact ⟨_, content, hsplit⟩
        · cases h

/-- What is left after an event is the end of what was left before it. -/
theorem suffix_of_next {text rest : List Char} {e : Event} (h : Event.next text = .event e rest) :
    rest <:+ text := by
  cases text with
  | nil => cases h
  | cons c text =>
    simp only [Event.next] at h
    split at h
    · cases text with
      | nil => cases h
      | cons d text =>
        have htext : text <:+ c :: d :: text := List.suffix_append [c, d] text
        have htag : d :: text <:+ c :: d :: text := List.suffix_cons c (d :: text)
        simp only [readMarkup] at h
        split at h
        · obtain ⟨ready, content, hsplit⟩ := split_of_readDeclaration h
          exact (suffix_of_splitWhere? hsplit).trans htext
        · split at h
          · cases h
            exact (suffix_splitAtAngle text).trans htext
          · split at h
            · simp only [readInstruction] at h
              split at h
              · cases h
                exact (suffix_splitAtAngle text).trans htext
              · cases h
            · unfold readTag at h
              split at h
              · cases h
              · next content left hsplit =>
                cases h
                exact (suffix_of_splitTag? hsplit).trans htag
    · cases h
      exact List.dropWhile_suffix _

theorem readDeclaration_ne_done (text : List Char) : readDeclaration text ≠ .done := by
  cases text with
  | nil => simp [readDeclaration]
  | cons c text =>
    simp only [readDeclaration, readLiteral, readComment, readDocumentType]
    repeat' split
    all_goals simp

/-- Nothing is left to read of an empty text and of a `<` alone. -/
theorem text_of_next_done {text : List Char} (h : Event.next text = .done) :
    text = [] ∨ text = ['<'] := by
  cases text with
  | nil => exact Or.inl rfl
  | cons c text =>
    simp only [Event.next] at h
    split at h
    · next hc =>
      cases text with
      | nil => exact Or.inr (by rw [hc])
      | cons d text =>
        simp only [readMarkup] at h
        split at h
        · exact absurd h (readDeclaration_ne_done text)
        · split at h
          · cases h
          · split at h
            · simp only [readInstruction] at h
              split at h <;> cases h
            · unfold readTag at h
              split at h <;> cases h
    · cases h

end XmlRpc.Markup
