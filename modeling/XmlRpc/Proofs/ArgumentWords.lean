/-
  XmlRpc/Proofs/ArgumentWords.lean
  ================================
  **Arguments from words: nothing is lost, and the right word is blamed.**

  Words are pairs of a tag and a text, one after the other, with one word left over if their
  number is odd (`words_cases`).  Everything about positions follows from this: the tags stand
  at the even positions and the texts after them.  A word that is left over is reported before
  any tag is looked at, and the tags are looked at from the left, so it is the first one that
  is not registered that is reported (`ofPairs_of_unregistered`).  A text is never taken for a
  tag.
-/
import Mathlib.Data.List.Forall2
import XmlRpc.Command

namespace XmlRpc

namespace Arguments

/-! ### Words and pairs -/

/-- The words of pairs, one pair after the other. -/
def flatten (pairs : List (String × String)) : List String :=
  pairs.flatMap fun pair => [pair.1, pair.2]

@[simp] theorem flatten_nil : flatten [] = [] := rfl

@[simp] theorem flatten_cons (pair : String × String) (pairs : List (String × String)) :
    flatten (pair :: pairs) = pair.1 :: pair.2 :: flatten pairs := rfl

@[simp] theorem length_flatten (pairs : List (String × String)) :
    (flatten pairs).length = 2 * pairs.length := by
  induction pairs with
  | nil => rfl
  | cons pair pairs ih =>
    simp only [flatten_cons, List.length_cons, ih]
    omega

theorem tag_flatten (pairs : List (String × String)) (i : Nat) :
    (flatten pairs)[2 * i]? = (pairs[i]?).map Prod.fst := by
  induction pairs generalizing i with
  | nil => simp
  | cons pair pairs ih =>
    cases i with
    | zero => rfl
    | succ i => exact ih i

theorem text_flatten (pairs : List (String × String)) (i : Nat) :
    (flatten pairs)[2 * i + 1]? = (pairs[i]?).map Prod.snd := by
  induction pairs generalizing i with
  | nil => simp
  | cons pair pairs ih =>
    cases i with
    | zero => rfl
    | succ i => exact ih i

@[simp] theorem pairUp_flatten (pairs : List (String × String)) :
    pairUp (flatten pairs) = (pairs, none) := by
  induction pairs with
  | nil => rfl
  | cons pair pairs ih => simp [pairUp, ih]

@[simp] theorem pairUp_flatten_concat (pairs : List (String × String)) (last : String) :
    pairUp (flatten pairs ++ [last]) = (pairs, some last) := by
  induction pairs with
  | nil => rfl
  | cons pair pairs ih => simp [pairUp, ih]

/-- Words are the words of pairs, or one more. -/
theorem words_cases (words : List String) :
    (∃ pairs, words = flatten pairs) ∨ ∃ pairs last, words = flatten pairs ++ [last] := by
  fun_induction pairUp words with
  | case1 => exact Or.inl ⟨[], rfl⟩
  | case2 word => exact Or.inr ⟨[], word, rfl⟩
  | case3 tag raw rest pairs left hrest ih =>
    rcases ih with ⟨pairs, rfl⟩ | ⟨pairs, last, rfl⟩
    · exact Or.inl ⟨(tag, raw) :: pairs, rfl⟩
    · exact Or.inr ⟨(tag, raw) :: pairs, last, rfl⟩

theorem ofWords_flatten (pairs : List (String × String)) :
    ofWords (flatten pairs) = ofPairs pairs := by
  simp [ofWords]

theorem ofWords_concat (pairs : List (String × String)) (last : String) :
    ofWords (flatten pairs ++ [last]) = .error (.unpairedArgument last) := by
  simp [ofWords]

/-! ### Tags -/

/-- The tag names a kind of scalar. -/
def Registered (tag : String) : Prop :=
  ∃ kind, ScalarKind.ofTag? tag = some kind

/-- The tags that are registered. -/
theorem registered_iff {tag : String} :
    Registered tag ↔
      tag ∈ ["string", "i4", "int", "integer", "double", "boolean", "base64"] := by
  unfold Registered ScalarKind.ofTag?
  split <;> simp_all

/-- The node is the scalar that a tag and a text stand for. -/
def Makes (pair : String × String) (node : Node) : Prop :=
  ∃ kind, ScalarKind.ofTag? pair.1 = some kind ∧ node = .scalar ⟨kind, pair.2⟩

theorem ofTag_eq_ok_iff {tag raw : String} {node : Node} :
    Node.ofTag tag raw = .ok node ↔ Makes (tag, raw) node := by
  unfold Node.ofTag Scalar.ofTag ScalarKind.ofTag Makes
  cases ScalarKind.ofTag? tag <;> simp [Except.map, eq_comm]

theorem ofTag_of_unregistered {tag : String} (h : ¬Registered tag) (raw : String) :
    Node.ofTag tag raw = .error (.unknownType tag) := by
  have hnone : ScalarKind.ofTag? tag = none := by
    simpa [Registered, Option.eq_none_iff_forall_ne_some] using h
  simp [Node.ofTag, Scalar.ofTag, ScalarKind.ofTag, hnone, Except.map]

theorem ofPairs_cons_of_makes {pair : String × String} {node : Node} (h : Makes pair node)
    (pairs : List (String × String)) :
    ofPairs (pair :: pairs) = (ofPairs pairs).map (node :: ·) := by
  rw [ofPairs, ofTag_eq_ok_iff.2 h]
  cases ofPairs pairs <;> rfl

theorem ofPairs_cons_of_unregistered {pair : String × String} (h : ¬Registered pair.1)
    (pairs : List (String × String)) :
    ofPairs (pair :: pairs) = .error (.unknownType pair.1) := by
  rw [ofPairs, ofTag_of_unregistered h]
  rfl

/-- Pairs are arguments exactly if each makes a scalar, and then these are the arguments. -/
theorem ofPairs_eq_ok_iff {pairs : List (String × String)} {nodes : List Node} :
    ofPairs pairs = .ok nodes ↔ List.Forall₂ Makes pairs nodes := by
  induction pairs generalizing nodes with
  | nil => simp [ofPairs, eq_comm]
  | cons pair pairs ih =>
    rw [List.forall₂_cons_left_iff]
    constructor
    · intro h
      by_cases hregistered : Registered pair.1
      · obtain ⟨kind, hkind⟩ := hregistered
        have hmakes : Makes pair (.scalar ⟨kind, pair.2⟩) := ⟨kind, hkind, rfl⟩
        rw [ofPairs_cons_of_makes hmakes] at h
        rcases hrest : ofPairs pairs with error | rest
        · simp [hrest, Except.map] at h
        · simp [hrest, Except.map] at h
          exact ⟨_, rest, hmakes, ih.1 hrest, h.symm⟩
      · simp [ofPairs_cons_of_unregistered hregistered] at h
    · rintro ⟨first, rest, hmakes, hrest, rfl⟩
      rw [ofPairs_cons_of_makes hmakes, ih.2 hrest]
      rfl

theorem exists_ofPairs_iff {pairs : List (String × String)} :
    (∃ nodes, ofPairs pairs = .ok nodes) ↔ ∀ pair ∈ pairs, Registered pair.1 := by
  simp only [ofPairs_eq_ok_iff]
  induction pairs with
  | nil => simp
  | cons pair pairs ih =>
    rw [List.forall_mem_cons, ← ih]
    constructor
    · rintro ⟨nodes, hnodes⟩
      obtain ⟨first, rest, ⟨kind, hkind, -⟩, hrest, -⟩ := List.forall₂_cons_left_iff.1 hnodes
      exact ⟨⟨kind, hkind⟩, rest, hrest⟩
    · rintro ⟨⟨kind, hkind⟩, rest, hrest⟩
      exact ⟨_ :: rest, .cons ⟨kind, hkind, rfl⟩ hrest⟩

/-- The first tag that is not registered is reported, whatever comes after it. -/
theorem ofPairs_of_unregistered {pairs : List (String × String)} {i : Nat}
    {pair : String × String} (hpair : pairs[i]? = some pair) (h : ¬Registered pair.1)
    (hbefore : ∀ j < i, ∀ other, pairs[j]? = some other → Registered other.1) :
    ofPairs pairs = .error (.unknownType pair.1) := by
  induction pairs generalizing i with
  | nil => simp at hpair
  | cons first pairs ih =>
    cases i with
    | zero =>
      obtain rfl : first = pair := by simpa using hpair
      exact ofPairs_cons_of_unregistered h pairs
    | succ i =>
      obtain ⟨kind, hkind⟩ := hbefore 0 (Nat.succ_pos i) first rfl
      have hrest : ofPairs pairs = .error (.unknownType pair.1) := by
        apply ih hpair
        intro j hj other hother
        exact hbefore (j + 1) (Nat.succ_lt_succ hj) other hother
      rw [ofPairs_cons_of_makes ⟨kind, hkind, rfl⟩, hrest]
      rfl

/-- The argument that stands where the pair stood. -/
theorem argument_of_pair {pairs : List (String × String)} {nodes : List Node}
    (h : List.Forall₂ Makes pairs nodes) {i : Nat} {pair : String × String}
    (hpair : pairs[i]? = some pair) :
    ∃ kind, ScalarKind.ofTag? pair.1 = some kind ∧ nodes[i]? = some (.scalar ⟨kind, pair.2⟩) := by
  obtain ⟨hi, rfl⟩ := List.getElem?_eq_some_iff.1 hpair
  have hi' : i < nodes.length := h.length_eq ▸ hi
  obtain ⟨kind, hkind, hnode⟩ := h.get hi hi'
  exact ⟨kind, hkind, List.getElem?_eq_some_iff.2 ⟨hi', hnode⟩⟩

/-! ### Positions in the words -/

variable {words : List String} {nodes : List Node}

theorem pair_of_tag {pairs : List (String × String)} {i : Nat} {tag : String}
    (h : (flatten pairs)[2 * i]? = some tag) : ∃ raw, pairs[i]? = some (tag, raw) := by
  rw [tag_flatten, Option.map_eq_some_iff] at h
  obtain ⟨pair, hpair, rfl⟩ := h
  exact ⟨pair.2, hpair⟩

/-- Words are arguments exactly if none is left over and every tag is registered. -/
theorem exists_ofWords_iff :
    (∃ nodes, ofWords words = .ok nodes) ↔
      words.length % 2 = 0 ∧ ∀ i tag, words[2 * i]? = some tag → Registered tag := by
  rcases words_cases words with ⟨pairs, rfl⟩ | ⟨pairs, last, rfl⟩
  · rw [ofWords_flatten, exists_ofPairs_iff]
    constructor
    · intro htags
      refine ⟨by simp, ?_⟩
      intro i tag htag
      obtain ⟨raw, hpair⟩ := pair_of_tag htag
      exact htags _ (List.mem_of_getElem? hpair)
    · rintro ⟨-, htags⟩ pair hpair
      obtain ⟨i, hi⟩ := List.mem_iff_getElem?.1 hpair
      exact htags i pair.1 (by simp [tag_flatten, hi])
  · simp [ofWords_concat]

theorem length_of_ofWords (h : ofWords words = .ok nodes) : nodes.length = words.length / 2 := by
  rcases words_cases words with ⟨pairs, rfl⟩ | ⟨pairs, last, rfl⟩
  · rw [ofWords_flatten, ofPairs_eq_ok_iff] at h
    simp [h.length_eq]
  · simp [ofWords_concat] at h

/-- Each argument is made of the two words at its place. -/
theorem argument_of_words (h : ofWords words = .ok nodes) {i : Nat} {tag raw : String}
    (htag : words[2 * i]? = some tag) (hraw : words[2 * i + 1]? = some raw) :
    ∃ kind, ScalarKind.ofTag? tag = some kind ∧ nodes[i]? = some (.scalar ⟨kind, raw⟩) := by
  rcases words_cases words with ⟨pairs, rfl⟩ | ⟨pairs, last, rfl⟩
  · rw [ofWords_flatten, ofPairs_eq_ok_iff] at h
    obtain ⟨text, hpair⟩ := pair_of_tag htag
    obtain rfl : text = raw := by simpa [text_flatten, hpair] using hraw
    exact argument_of_pair h hpair
  · simp [ofWords_concat] at h

theorem ofWords_of_odd (hodd : words.length % 2 = 1) {last : String}
    (hlast : words.getLast? = some last) : ofWords words = .error (.unpairedArgument last) := by
  rcases words_cases words with ⟨pairs, rfl⟩ | ⟨pairs, word, rfl⟩
  · simp at hodd
  · obtain rfl : word = last := by simpa using hlast
    exact ofWords_concat pairs word

theorem ofWords_of_unregistered (heven : words.length % 2 = 0) {i : Nat} {tag : String}
    (htag : words[2 * i]? = some tag) (h : ¬Registered tag)
    (hbefore : ∀ j < i, ∀ other, words[2 * j]? = some other → Registered other) :
    ofWords words = .error (.unknownType tag) := by
  rcases words_cases words with ⟨pairs, rfl⟩ | ⟨pairs, last, rfl⟩
  · obtain ⟨raw, hpair⟩ := pair_of_tag htag
    rw [ofWords_flatten]
    apply ofPairs_of_unregistered hpair h
    intro j hj other hother
    exact hbefore j hj other.1 (by simp [tag_flatten, hother])
  · simp at heven

/-! ### The answer to a command -/

/-- What the command shows for a call, or for the error that there is none. -/
theorem answer_call_flatten (json : Bool) (method : String) (pairs : List (String × String))
    (source : Option String → Except SourceError String) :
    (Command.Request.call method (flatten pairs)).answer json source =
      match Call.ofPairs method pairs with
      | .ok call =>
        .success ((if json then (Command.callToJson call).render else call.toWire) ++ "\n")
      | .error error => .failureOf ("build arguments for " ++ method) error.message := by
  rw [Command.Request.answer, Command.answerCall, ofWords_flatten, Call.ofPairs]
  cases ofPairs pairs <;> rfl

/-- **Words make arguments without loss, and the right word is blamed.**  Words are arguments if
    their number is even and every word at an even position is a registered tag, and then there
    is one scalar for every two words, of the kind that the first names and with the second as its
    text.  Of an odd number of words the last is reported, whatever the tags are; else the first
    tag that is not registered.  Pairs and their words one after the other give the same arguments
    or the same error, and so the same call. -/
theorem ofWords_cases :
    (∀ words, (∃ nodes, ofWords words = .ok nodes) ↔
      words.length % 2 = 0 ∧ ∀ i tag, words[2 * i]? = some tag → Registered tag) ∧
    (∀ words nodes, ofWords words = .ok nodes →
      nodes.length = words.length / 2 ∧
      ∀ i tag raw, words[2 * i]? = some tag → words[2 * i + 1]? = some raw →
        ∃ kind, ScalarKind.ofTag? tag = some kind ∧ nodes[i]? = some (.scalar ⟨kind, raw⟩)) ∧
    (∀ words last, words.length % 2 = 1 → words.getLast? = some last →
      ofWords words = .error (.unpairedArgument last)) ∧
    (∀ words i tag, words.length % 2 = 0 → words[2 * i]? = some tag → ¬Registered tag →
      (∀ j < i, ∀ other, words[2 * j]? = some other → Registered other) →
      ofWords words = .error (.unknownType tag)) ∧
    (∀ pairs, ofWords (flatten pairs) = ofPairs pairs) ∧
    (∀ json method pairs source,
      (Command.Request.call method (flatten pairs)).answer json source =
        match Call.ofPairs method pairs with
        | .ok call =>
          .success ((if json then (Command.callToJson call).render else call.toWire) ++ "\n")
        | .error error => .failureOf ("build arguments for " ++ method) error.message) := by
  refine ⟨fun words => exists_ofWords_iff, ?made, ?left, ?unregistered, ofWords_flatten,
    answer_call_flatten⟩
  case made =>
    intro words nodes hnodes
    refine ⟨length_of_ofWords hnodes, ?_⟩
    intro i tag raw htag hraw
    exact argument_of_words hnodes htag hraw
  case left =>
    intro words last hodd hlast
    exact ofWords_of_odd hodd hlast
  case unregistered =>
    intro words i tag heven htag hunregistered hbefore
    exact ofWords_of_unregistered heven htag hunregistered hbefore

/-- A text that is no tag is not blamed, and a tag that is none gives way to a word too many. -/
theorem ofWords_cases_mistyped :
    (∃ nodes, ofWords ["string", "Int", "i4", " 7"] = .ok nodes ∧ nodes.length = 2 ∧
      ∃ kind, ScalarKind.ofTag? "i4" = some kind ∧ nodes[1]? = some (.scalar ⟨kind, " 7"⟩)) ∧
    ofWords ["Int", "1", "double"] = .error (.unpairedArgument "double") ∧
    ofWords ["string", "nil", "Int", "1", "nil", ""] = .error (.unknownType "Int") := by
  obtain ⟨haccepted, hmade, hleft, hunregistered, -, -⟩ := ofWords_cases
  refine ⟨?_, hleft _ _ (by decide) (by decide), ?_⟩
  · have htags : ∀ i tag, ["string", "Int", "i4", " 7"][2 * i]? = some tag → Registered tag := by
      rintro (_ | _ | i) tag htag
      · cases htag
        exact ⟨.string, rfl⟩
      · cases htag
        exact ⟨.integer, rfl⟩
      · cases htag
    obtain ⟨nodes, hnodes⟩ := (haccepted _).2 ⟨by decide, htags⟩
    obtain ⟨hlength, hnode⟩ := hmade _ _ hnodes
    exact ⟨nodes, hnodes, hlength, hnode 1 "i4" " 7" rfl rfl⟩
  · apply hunregistered _ 1 "Int" (by decide) rfl
    · rintro ⟨kind, hkind⟩
      cases hkind
    · intro j hj other hother
      obtain rfl : j = 0 := by omega
      cases hother
      exact ⟨.string, rfl⟩

end Arguments

end XmlRpc
