/-
  XmlRpc/Proofs/Escaping.lean
  ===========================
  **Escaped text is read back as it was.**

  `escape` and `unescape` are inverse in one direction: what is escaped is read
  as the text it was made from, without an error (`unescape_escape`).  Escaping
  goes character by character, so the text of two escaped pieces side by side is
  the escaped text of the two together, and no `<` is left in it.
-/
import XmlRpc.Markup.Entity

namespace XmlRpc.Markup

/-! ### Written text -/

/-- The characters of a text as it is written between tags. -/
def escapeChars (text : String) : List Char :=
  text.toList.flatMap escapeChar

theorem toList_escape (text : String) : (escape text).toList = escapeChars text := by
  simp [escape, escapeChars]

@[simp] theorem escapeChars_empty : escapeChars "" = [] := rfl

theorem escapeChars_append (a b : String) :
    escapeChars (a ++ b) = escapeChars a ++ escapeChars b := by
  simp [escapeChars, String.toList_append]

theorem escapeChar_ne_nil (c : Char) : escapeChar c ≠ [] := by
  unfold escapeChar
  repeat' split
  all_goals simp

theorem escapeChars_eq_nil {text : String} (h : escapeChars text = []) : text = "" := by
  rw [escapeChars, List.flatMap_eq_nil_iff] at h
  rw [← String.toList_inj]
  rcases hchars : text.toList with _ | ⟨c, rest⟩
  · rfl
  · exact (escapeChar_ne_nil c (h c (by simp [hchars]))).elim

theorem not_mem_escapeChars (text : String) : '<' ∉ escapeChars text := by
  intro h
  obtain ⟨c, -, hc⟩ := List.mem_flatMap.1 h
  unfold escapeChar at hc
  split at hc
  · simp at hc
  · next hne =>
    repeat' split at hc
    all_goals simp at hc
    exact hne hc.symm

/-! ### Reading it -/

theorem splitReference?_semicolon {name : List Char} (h : ∀ c ∈ name, c ≠ ';' ∧ c ≠ '&')
    (rest : List Char) : splitReference? (name ++ ';' :: rest) = some (name, rest) := by
  induction name with
  | nil => rfl
  | cons c name ih =>
    obtain ⟨hsemi, hamp⟩ := h c (by simp)
    have htail : splitReference? (name ++ ';' :: rest) = some (name, rest) :=
      ih fun d hd => h d (by simp [hd])
    simp only [List.cons_append, splitReference?, if_neg hsemi, if_neg hamp, htail]
    rfl

/-- A reference that stands for a character is read as that character. -/
theorem unescapeFrom_reference (name : List Char) {c : Char}
    (hname : ∀ d ∈ name, d ≠ ';' ∧ d ≠ '&')
    (hresolve : ∀ start stop, resolve start stop name = .ok c) (offset : Nat) (rest : List Char) :
    ∃ next, unescapeFrom offset ('&' :: (name ++ ';' :: rest)) =
      (unescapeFrom next rest).map (c :: ·) := by
  refine ⟨offset + 1 + Text.utf8Length name + 1, ?_⟩
  have hsplit := splitReference?_semicolon hname rest
  rw [unescapeFrom, if_pos rfl]
  split
  · next h =>
    rw [hsplit] at h
    cases h
  · next name' after h =>
    rw [hsplit] at h
    cases h
    dsimp only
    rw [hresolve]
    rcases unescapeFrom (offset + 1 + Text.utf8Length name + 1) rest with error | tail <;> rfl

/-- What is written for a character is read as that character. -/
theorem unescapeFrom_escapeChar (offset : Nat) (c : Char) (rest : List Char) :
    ∃ next, unescapeFrom offset (escapeChar c ++ rest) =
      (unescapeFrom next rest).map (c :: ·) := by
  unfold escapeChar
  split
  · next hc =>
    subst hc
    exact unescapeFrom_reference ['l', 't'] (by simp) (fun _ _ => rfl) offset rest
  split
  · next hc =>
    subst hc
    exact unescapeFrom_reference ['g', 't'] (by simp) (fun _ _ => rfl) offset rest
  split
  · next hc =>
    subst hc
    exact unescapeFrom_reference ['a', 'm', 'p'] (by simp) (fun _ _ => rfl) offset rest
  split
  · next hc =>
    subst hc
    exact unescapeFrom_reference ['a', 'p', 'o', 's'] (by simp) (fun _ _ => rfl)
      offset rest
  split
  · next hc =>
    subst hc
    exact unescapeFrom_reference ['q', 'u', 'o', 't'] (by simp) (fun _ _ => rfl)
      offset rest
  · next hlt hgt hamp hapos hquot =>
    refine ⟨offset + c.utf8Size, ?_⟩
    rw [List.singleton_append, unescapeFrom, if_neg hamp]
    rcases unescapeFrom (offset + c.utf8Size) rest with error | tail <;> rfl

theorem unescapeFrom_flatMap_escapeChar (offset : Nat) (text : List Char) :
    unescapeFrom offset (text.flatMap escapeChar) = .ok text := by
  induction text generalizing offset with
  | nil => simp [unescapeFrom]
  | cons c text ih =>
    obtain ⟨next, hnext⟩ := unescapeFrom_escapeChar offset c (text.flatMap escapeChar)
    rw [List.flatMap_cons, hnext, ih]
    rfl

/-- **Escaped text is read back as it was.** -/
theorem unescape_escape (text : String) : unescape (escape text) = .ok text := by
  rw [unescape, toList_escape, escapeChars, unescapeFrom_flatMap_escapeChar]
  exact congrArg Except.ok String.ofList_toList

end XmlRpc.Markup
