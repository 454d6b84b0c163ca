/-
  XmlRpc/Markup/Transcript.lean
  =============================
  **All events of a text, up to the first that cannot be read.**

  A transcript is the list of events that a text consists of, with the error
  that ended it, if one did. It is taken in two steps: the events as they stand,
  and then the check that every end tag closes the innermost open element, which
  needs only the names of the elements that are open.
-/
import XmlRpc.Markup.Event

namespace XmlRpc.Markup

/-! ### Every event is shorter than what is left -/

theorem length_splitAtAngle (text : List Char) : (splitAtAngle text).2.length ≤ text.length := by
  have h := List.takeWhile_append_dropWhile (p := (· ≠ '>')) (l := text)
  have := congrArg List.length h
  simp only [splitAtAngle, List.length_drop, List.length_append] at this ⊢
  omega

theorem length_of_splitWhere? {ready : List Char → Bool} {seen text content rest : List Char}
    (h : splitWhere? ready seen text = some (content, rest)) : rest.length < text.length := by
  induction text generalizing seen with
  | nil => simp [splitWhere?] at h
  | cons c text ih =>
    unfold splitWhere? at h
    split at h
    · simp at h
      simp [← h.2]
    · have := ih h
      simp
      omega

theorem length_of_splitTag? {quote : Option Char} {text : List Char}
    {parts : List Char × List Char} (h : splitTag? quote text = some parts) :
    parts.2.length < text.length := by
  induction text generalizing quote parts with
  | nil => simp [splitTag?] at h
  | cons c text ih =>
    unfold splitTag? at h
    split at h
    · split at h
      · simp at h
        simp [← h]
      · obtain ⟨inner, hp, rfl⟩ := Option.map_eq_some_iff.1 h
        have := ih hp
        exact Nat.lt_succ_of_lt this
    · obtain ⟨inner, hp, rfl⟩ := Option.map_eq_some_iff.1 h
      have := ih hp
      exact Nat.lt_succ_of_lt this

theorem length_of_readLiteral {text rest : List Char} {e : Event}
    (h : readLiteral text = .event e rest) : rest.length < text.length := by
  unfold readLiteral at h
  split at h
  · simp at h
  · next hs =>
    dsimp only at h
    split at h <;> simp at h
    exact h.2 ▸ length_of_splitWhere? hs

theorem length_of_readComment {text rest : List Char} {e : Event}
    (h : readComment text = .event e rest) : rest.length < text.length := by
  unfold readComment at h
  split at h
  · simp at h
  · next hs =>
    split at h <;> simp at h
    exact h.2 ▸ length_of_splitWhere? hs

theorem length_of_readDocumentType {text rest : List Char} {e : Event}
    (h : readDocumentType text = .event e rest) : rest.length < text.length := by
  unfold readDocumentType at h
  split at h
  · simp at h
  · next hs =>
    split at h
    · simp at h
    · split at h <;> simp at h
      exact h.2 ▸ length_of_splitWhere? hs

theorem length_of_readDeclaration {text rest : List Char} {e : Event}
    (h : readDeclaration text = .event e rest) : rest.length < text.length := by
  unfold readDeclaration at h
  split at h
  · simp at h
  · split at h
    · exact length_of_readLiteral h
    · split at h
      · exact length_of_readComment h
      · split at h
        · exact length_of_readDocumentType h
        · simp at h

theorem length_of_readTag {text rest : List Char} {e : Event}
    (h : readTag text = .event e rest) : rest.length < text.length := by
  unfold readTag at h
  split at h <;> simp at h
  next hs => exact h.2 ▸ length_of_splitTag? hs

theorem length_of_readClosing {text rest : List Char} {e : Event}
    (h : readClosing text = .event e rest) : rest.length ≤ text.length := by
  simp only [readClosing, Reading.event.injEq] at h
  exact h.2 ▸ length_splitAtAngle text

theorem length_of_readInstruction {text rest : List Char} {e : Event}
    (h : readInstruction text = .event e rest) : rest.length ≤ text.length := by
  simp only [readInstruction] at h
  split at h <;> simp at h
  exact h.2 ▸ length_splitAtAngle text

theorem length_of_readMarkup {text rest : List Char} {e : Event}
    (h : readMarkup text = .event e rest) : rest.length < text.length := by
  unfold readMarkup at h
  split at h
  · simp at h
  · next c tail =>
    rw [List.length_cons]
    split at h
    · exact Nat.lt_succ_of_lt (length_of_readDeclaration h)
    · split at h
      · exact Nat.lt_succ_of_le (length_of_readClosing h)
      · split at h
        · exact Nat.lt_succ_of_le (length_of_readInstruction h)
        · exact length_of_readTag h

/-- What is left after an event is shorter than what was left before it. -/
theorem length_of_next {text rest : List Char} {e : Event}
    (h : Event.next text = .event e rest) : rest.length < text.length := by
  unfold Event.next at h
  split at h
  · simp at h
  · next c tail =>
    rw [List.length_cons]
    split at h
    · exact Nat.lt_succ_of_lt (length_of_readMarkup h)
    · next hc =>
      simp only [readText, Reading.event.injEq] at h
      rw [← h.2, List.dropWhile_cons_of_pos (by simpa using hc)]
      exact Nat.lt_succ_of_le (List.dropWhile_sublist _).length_le

/-! ### The events of a text -/

/-- The events that were read, and the error after the last of them. -/
structure Transcript where
  events : List Event
  failure : Option ReadError
deriving Repr

namespace Transcript

/-- A transcript that begins with an event. -/
def cons (e : Event) (rest : Transcript) : Transcript :=
  { rest with events := e :: rest.events }

/-- Takes events off a text until nothing is left or one cannot be read. -/
def scan (text : List Char) : Transcript :=
  match _ : Event.next text with
  | .done => ⟨[], none⟩
  | .failed error => ⟨[], some error⟩
  | .event e rest => cons e (scan rest)
termination_by text.length
decreasing_by exact length_of_next (by assumption)

/-! ### The names of open elements -/

/-- The names of the open elements after an event, the innermost first. -/
def stepNames (names : List String) : Event → Except ReadError (List String)
  | .opening name => .ok (name :: names)
  | .closing written =>
    match names with
    | [] => .error (.mismatchedEnd "" written)
    | innermost :: rest =>
      if closedName written = innermost then .ok rest
      else .error (.mismatchedEnd innermost (closedName written))
  | _ => .ok names

/-- Ends a transcript before the first end tag that does not close the innermost open element. -/
def checkNames (names : List String) : List Event → Option ReadError → Transcript
  | [], failure => ⟨[], failure⟩
  | e :: rest, failure =>
    match stepNames names e with
    | .error error => ⟨[], some error⟩
    | .ok names => cons e (checkNames names rest failure)

/-- The transcript of a document: its events up to the first error of any kind. A byte-order mark
    at the very beginning is no text. -/
def ofDocument (text : List Char) : Transcript :=
  let body := if text.head? = some '\ufeff' then text.drop 1 else text
  let scanned := scan body
  checkNames [] scanned.events scanned.failure

end Transcript

end XmlRpc.Markup
