/-
  XmlRpc/Proofs/Reencoding.lean
  =============================
  **A node that was read, written and read again.**

  A decoder accepts more forms than an encoder writes, and not every node that it
  returns survives being written.  Three things can go wrong, each by design:

    * tags are written as they are, and a name that holds a `>`, leaves a quote open,
      ends in a slash or loses its end in an end tag is not given back by tags (`Closable`);
    * an item of an array that is tagged `value` is looked through;
    * the form that is written nests deeper than some forms that are read.

  Nothing else does.  `decode_again` says that with closable tags the other two
  decide, whatever the reply looked like, and whichever white space of ASCII a reader
  takes off the end of an end tag.
-/
import XmlRpc.Proofs.DecodedNodes

namespace XmlRpc

open Markup (Element Piece IsTagName ReadName)

/-- The names among those that are read that a start tag and an end tag give back, if the `blank`
    characters at the end of an end tag do not count. -/
structure Closable (blank : Char → Bool) (tag : String) : Prop where
  angle : '>' ∉ tag.toList
  quotes : Markup.quoteAfter none tag.toList = none
  last : tag.toList.getLast? ≠ some '/'
  /-- It does not end in a blank, unless it is nothing else. -/
  whole : ∀ c ∈ tag.toList.getLast?, blank c = true → ∀ d ∈ tag.toList, blank d = true

namespace Reply

open Node (Everywhere EveryItem EveryMember Distinct Tagged NoBareValue arrayParts memberParts
  paramParts)
open Markup.Piece (contentAll elementsAll elementsAll_element elementsAll_text depth_around
  depth_text wellFormed_text allWellFormed_singleton)

/-! ### What an element stands for -/

/-- What is tagged `value` in an entry is not read as it was meant. -/
theorem typeName_of_decodeEntry {n : Node} {name text : String}
    (h : decodeEntry ⟨name, text, [n.toElement]⟩ = .ok n) :
    n.typeName ≠ "value" ∧ decodeTyped n.toElement = .ok n := by
  rw [decodeEntry] at h
  split at h
  · next hvalue =>
    cases n with
    | scalar s =>
      obtain ⟨kind, raw⟩ := s
      change decodeValue ⟨kind.tag, _, []⟩ = _ at h
      rw [decodeValue] at h
      split at h
      · cases h
      · -- a `value` without children is a string, and no string is tagged `value`
        have hkind : Scalar.mk .string _ = ⟨kind, raw⟩ := Node.scalar.inj (Except.ok.inj h)
        change kind.tag = "value" at hvalue
        rw [← (Scalar.mk.inj hkind).1] at hvalue
        exact absurd hvalue (by decide)
    | array items => exact absurd hvalue (show ("array" : String) ≠ "value" by decide)
    | struct members => exact absurd hvalue (show ("struct" : String) ≠ "value" by decide)
    | params items => exact absurd hvalue (show ("params" : String) ≠ "value" by decide)
  · next hvalue => exact ⟨hvalue, h⟩

theorem names_of_memberParts {members decoded : List (String × Node)}
    (h : decodeMembers (elementsAll (memberParts members)) = .ok decoded) :
    Members.names decoded = Members.names members := by
  induction members generalizing decoded with
  | nil =>
    cases h
    rfl
  | cons entry rest ih =>
    obtain ⟨name, child⟩ := entry
    rw [memberParts, elementsAll_element] at h
    obtain ⟨node, nodes, rfl, -, hrest⟩ := of_decodeMembers_cons h
    have hname : memberName (elementsAll [.element "name" [] [.text name],
        .element "value" [] [.element child.typeName [] child.parts]]) = name := by
      rw [elementsAll_element]
      simp [memberName, Piece.contentAll, Piece.content]
    rw [hname, Members.names, List.map_cons, ← Members.names, ih hrest]
    rfl

mutual

/-- An element that stands for the node it was written for holds no bare `value`. -/
theorem noBareValue_of_decodeTyped (n : Node) (hn : n.Everywhere Distinct)
    (h : decodeTyped n.toElement = .ok n) : n.Everywhere NoBareValue := by
  cases n with
  | scalar s => trivial
  | array items =>
    rw [Everywhere] at hn
    rw [decodeTyped_array] at h
    obtain ⟨decoded, hdecoded, heq⟩ := ok_of_map h
    rw [Node.array.inj heq] at hdecoded
    rw [Everywhere]
    exact noBareValue_of_arrayParts items hn.2 hdecoded
  | struct members =>
    rw [Everywhere] at hn
    rw [decodeTyped_struct] at h
    obtain ⟨decoded, hdecoded, heq⟩ := ok_of_map h
    have hdistinct : (Members.names decoded).Nodup := by
      rw [names_of_memberParts hdecoded]
      exact hn.1
    rw [Members.ofList_of_nodup hdistinct] at heq
    rw [Node.struct.inj heq] at hdecoded
    rw [Everywhere]
    exact ⟨trivial, noBareValue_of_memberParts members hn.2 hdecoded⟩
  | params items =>
    rw [Everywhere] at hn
    rw [decodeTyped_params] at h
    obtain ⟨decoded, hdecoded, heq⟩ := ok_of_map h
    rw [Node.params.inj heq] at hdecoded
    rw [Everywhere]
    exact ⟨trivial, noBareValue_of_paramParts items hn.2 hdecoded⟩

theorem noBareValue_of_arrayParts (items : List Node) (hitems : EveryItem Distinct items)
    (h : decodeEntries (elementsAll (arrayParts items)) = .ok items) :
    (∀ item ∈ items, item.typeName ≠ "value") ∧ EveryItem NoBareValue items := by
  cases items with
  | nil => exact ⟨by simp, trivial⟩
  | cons item rest =>
    rw [EveryItem] at hitems
    rw [arrayParts, elementsAll_element, elementsAll_element, elementsAll_text] at h
    obtain ⟨node, nodes, heq, hentry, hrest⟩ := of_decodeEntries_cons h
    rw [← (List.cons.inj heq).1] at hentry
    rw [← (List.cons.inj heq).2] at hrest
    obtain ⟨hvalue, htyped⟩ := typeName_of_decodeEntry hentry
    obtain ⟨hvalues, hothers⟩ := noBareValue_of_arrayParts rest hitems.2 hrest
    rw [EveryItem]
    exact ⟨List.forall_mem_cons.2 ⟨hvalue, hvalues⟩,
      noBareValue_of_decodeTyped item hitems.1 htyped, hothers⟩

theorem noBareValue_of_memberParts (members : List (String × Node))
    (hmembers : EveryMember Distinct members)
    (h : decodeMembers (elementsAll (memberParts members)) = .ok members) :
    EveryMember NoBareValue members := by
  cases members with
  | nil => trivial
  | cons entry rest =>
    obtain ⟨name, child⟩ := entry
    rw [EveryMember] at hmembers
    rw [memberParts, elementsAll_element, elementsAll_element, elementsAll_element,
      elementsAll_element] at h
    obtain ⟨node, nodes, heq, hvalue, hrest⟩ := of_decodeMembers_cons h
    rw [← (Prod.mk.inj (List.cons.inj heq).1).2] at hvalue
    rw [← (List.cons.inj heq).2] at hrest
    have hname : ¬("name" : String) = "value" := by decide
    rw [decodeMemberValue, if_neg hname, decodeMemberValue, if_pos rfl, decodeValue] at hvalue
    rw [EveryMember]
    exact ⟨noBareValue_of_decodeTyped child hmembers.1 hvalue,
      noBareValue_of_memberParts rest hmembers.2 hrest⟩

theorem noBareValue_of_paramParts (items : List Node) (hitems : EveryItem Distinct items)
    (h : decodeEntries (elementsAll (paramParts items)) = .ok items) :
    EveryItem NoBareValue items := by
  cases items with
  | nil => trivial
  | cons item rest =>
    rw [EveryItem] at hitems
    rw [paramParts, elementsAll_element, elementsAll_element, elementsAll_element,
      elementsAll_text] at h
    obtain ⟨node, nodes, heq, hentry, hrest⟩ := of_decodeEntries_cons h
    rw [← (List.cons.inj heq).1] at hentry
    rw [← (List.cons.inj heq).2] at hrest
    rw [decodeEntry, if_pos rfl, decodeValue] at hentry
    rw [EveryItem]
    exact ⟨noBareValue_of_decodeTyped item hitems.1 hentry,
      noBareValue_of_paramParts rest hitems.2 hrest⟩

end

/-! ### What was decoded -/

theorem tagged_of_closable {blank : Char → Bool} {n : Node}
    (hdecoded : n.Everywhere (Decoded ReadName)) (htags : n.Everywhere (Tagged (Closable blank))) :
    n.Everywhere (Tagged IsTagName) := by
  refine Everywhere.combine (fun n hn hclosable => ?_) n hdecoded htags
  cases n with
  | scalar s =>
    intro tag htag
    have hread := (hn.2 tag htag).1
    have hclose := hclosable tag htag
    exact ⟨hread.whole, hread.start, hclose.angle, hclose.quotes, hclose.last⟩
  | _ => trivial

theorem unambiguous_of_decoded {n : Node} (hdecoded : n.Everywhere (Decoded ReadName))
    (hvalue : n.Everywhere NoBareValue) : n.Everywhere Node.Unambiguous :=
  Everywhere.combine
    (fun _ hn hvalue => ⟨hn.1, hn.2.imp fun _ htag => htag.2, hvalue⟩) n hdecoded hvalue

/-! ### Forms that nest less than what is written -/

/-- Parameter lists in one another without a `value`, around a string without a tag. -/
def unwrapped : Nat → Piece
  | 0 => .text "1"
  | k + 1 => .element "params" [] [.element "param" [] [unwrapped k]]

/-- The node that these stand for. -/
def nested : Nat → Node
  | 0 => .string "1"
  | k + 1 => .params [nested k]

/-- The text of a reply with these in its `value`. -/
def unwrappedReply (k : Nat) : String :=
  String.ofList (Piece.element "methodResponse" [] (enveloped (unwrapped k))).written

theorem depth_unwrapped (k : Nat) : (unwrapped k).depth = 2 * k := by
  induction k with
  | zero => rw [unwrapped, depth_text]
  | succ k ih =>
    rw [unwrapped, depth_around, depth_around, ih]
    omega

theorem height_nested (k : Nat) : (nested k).height = 3 * k + 1 := by
  induction k with
  | zero => rw [nested, Node.string, Node.height]
  | succ k ih =>
    rw [nested, Node.height, Node.itemsHeight, Node.itemsHeight, ih]
    simp
    omega

theorem wellFormed_unwrapped (k : Nat) : (unwrapped k).WellFormed := by
  induction k with
  | zero => exact wellFormed_text "1"
  | succ k ih =>
    have hparam := wellFormed_around "param" (by simp [vocabulary])
      (allWellFormed_singleton ih)
    exact wellFormed_around "params" (by simp [vocabulary])
      (allWellFormed_singleton hparam)

theorem decode_around_unwrapped (k : Nat) :
    decodeValue ⟨"value", contentAll [unwrapped k], elementsAll [unwrapped k]⟩ = .ok (nested k) ∧
      decodeEntry ⟨"param", contentAll [unwrapped k], elementsAll [unwrapped k]⟩ =
        .ok (nested k) := by
  induction k with
  | zero => exact ⟨rfl, rfl⟩
  | succ k ih =>
    have htyped : decodeTyped ⟨"params", contentAll [.element "param" [] [unwrapped k]],
        elementsAll [.element "param" [] [unwrapped k]]⟩ = .ok (nested (k + 1)) := by
      rw [elementsAll_element, decodeTyped, if_neg (by decide), if_pos rfl]
      change (decodeEntries [_]).map Node.params = _
      rw [decodeEntries, ih.2]
      rfl
    have hname : ¬("params" : String) = "value" := by decide
    rw [unwrapped, elementsAll_element]
    constructor
    · rw [decodeValue, htyped]
    · rw [decodeEntry, if_neg hname, htyped]

theorem everywhere_nested {P : Node → Prop} (hstring : P (.string "1"))
    (hparams : ∀ items, P (.params items)) (k : Nat) : (nested k).Everywhere P := by
  induction k with
  | zero => exact hstring
  | succ k ih =>
    rw [nested, Everywhere, EveryItem, EveryItem]
    exact ⟨hparams _, ih, trivial⟩

/-- **A form that is read at more levels than it can be written.**  Parameter lists without a
    `value` are read to 254 levels, and written with a `value` they are read to 169. -/
theorem decode_unwrappedReply (k : Nat) :
    (k ≤ 254 → decode (unwrappedReply k) = .ok (nested k)) ∧
      (decode (envelope (nested k).toWire) = .ok (nested k) ↔ k ≤ 169) := by
  constructor
  · intro hk
    have hread := decode_enveloped (wellFormed_unwrapped k)
      (show (unwrappedReply k).toList = _ from String.toList_ofList)
    rw [hread, depth_unwrapped, if_pos (by omega), (decode_around_unwrapped k).1]
    rfl
  · have hnames : (nested k).Everywhere (Tagged IsTagName) :=
      everywhere_nested (fun _ htag => nomatch htag) (fun _ => trivial) k
    have hplain : (nested k).Everywhere Node.Unambiguous :=
      everywhere_nested ⟨trivial, (fun _ htag => nomatch htag), trivial⟩
        (fun _ => ⟨trivial, trivial, trivial⟩) k
    rw [decode_envelope_of_names hnames, decodeTyped_toElement _ hplain, height_nested]
    by_cases hk : k ≤ 169
    · rw [if_pos (by omega)]
      exact ⟨fun _ => hk, fun _ => rfl⟩
    · rw [if_neg (by omega)]
      exact ⟨(fun h => nomatch h), fun h => (hk h).elim⟩

/-! ### Reading it again -/

/-- No name of the format holds white space. -/
theorem withoutEnd_of_vocabulary {blank : Char → Bool}
    (hblank : ∀ c, blank c = true → Markup.isAsciiBlank c = true) {name : String}
    (hname : name ∈ vocabulary) : Markup.withoutEnd blank name = name := by
  refine Markup.withoutEnd_eq_self ?_
  intro c hc hlast
  have hplain := plain_of_vocabulary name hname c (List.mem_of_getLast? hc)
  exact absurd (Markup.mem_markupChars_of_isAsciiBlank (hblank c hlast)) hplain

theorem bare_enveloped {P : String → Prop} (hvocabulary : ∀ name ∈ vocabulary, P name) {p : Piece}
    (h : p.Bare P) : (Piece.element "methodResponse" [] (enveloped p)).Bare P := by
  apply Node.bare_around hvocabulary "methodResponse" (by simp [vocabulary])
  apply Piece.allBare_singleton
  apply Node.bare_around hvocabulary "params" (by simp [vocabulary])
  apply Piece.allBare_singleton
  apply Node.bare_around hvocabulary "param" (by simp [vocabulary])
  apply Piece.allBare_singleton
  apply Node.bare_around hvocabulary "value" (by simp [vocabulary])
  exact Piece.allBare_singleton h

/-- **A standard reply around closable tags is read alike, whatever an end tag loses.** -/
theorem decodeBy_envelope {blank : Char → Bool}
    (hblank : ∀ c, blank c = true → Markup.isAsciiBlank c = true) {n : Node}
    (hnames : n.Everywhere (Tagged IsTagName)) (htags : n.Everywhere (Tagged (Closable blank))) :
    decodeBy blank (envelope n.toWire) = decode (envelope n.toWire) := by
  have hvocabulary : ∀ name ∈ vocabulary, IsTagName name ∧ Markup.withoutEnd blank name = name :=
    fun name hname => ⟨isTagName_of_vocabulary name hname, withoutEnd_of_vocabulary hblank hname⟩
  have hown : n.Everywhere (Tagged fun tag =>
      IsTagName tag ∧ Markup.withoutEnd blank tag = tag) := by
    refine Everywhere.combine (fun n hname hclosable => ?_) n hnames htags
    cases n with
    | scalar s =>
      exact fun tag htag => ⟨hname tag htag, Markup.withoutEnd_eq_self (hclosable tag htag).whole⟩
    | _ => trivial
  have hends := Piece.endTags_document (fun _ h => h.1)
    (bare_enveloped hvocabulary (Node.bare_piece hvocabulary n hown))
  rw [written_envelope (Node.written_piece n)] at hends
  rw [← decodeBy_isSeparator, decodeBy, decodeBy]
  rw [Element.parseBy_congr fun written hwritten => ?_]
  have hname := hends written hwritten
  exact hname.2.trans (Markup.closedName_eq_self hname.1.whole).symm

/-- **Encoding undoes decoding, with its exact limits.**  Whatever a reply looked like, if the
    unregistered tags of the node it is decoded to are closable, then the node is read again from
    a standard reply if and only if no array in it holds a scalar tagged `value` and its height is
    at most 508.  This is so whichever white space of ASCII is taken off the end of an end tag;
    `decode` takes off the separators. -/
theorem decode_again :
    decodeBy Markup.isSeparator = decode ∧
    ∀ (blank : Char → Bool) (xml : String) (n : Node),
      (∀ c, blank c = true → Markup.isAsciiBlank c = true) → decodeBy blank xml = .ok n →
      n.Everywhere (Tagged (Closable blank)) →
      (decodeBy blank (envelope n.toWire) = .ok n ↔
        n.Everywhere NoBareValue ∧ n.height ≤ 508) := by
  refine ⟨decodeBy_isSeparator, ?_⟩
  intro blank xml n hblank h htags
  have hdecoded := everywhere_of_decodeBy h
  have hnames := tagged_of_closable hdecoded htags
  rw [decodeBy_envelope hblank hnames htags, decode_envelope_of_names hnames]
  constructor
  · intro hagain
    by_cases hheight : n.height ≤ 508
    · rw [if_pos hheight] at hagain
      have htyped := ok_of_mapError hagain
      exact ⟨noBareValue_of_decodeTyped n (hdecoded.imp fun _ hn => hn.1) htyped, hheight⟩
    · rw [if_neg hheight] at hagain
      cases hagain
  · rintro ⟨hvalue, hheight⟩
    rw [if_pos hheight, decodeTyped_toElement n (unambiguous_of_decoded hdecoded hvalue)]
    rfl

theorem decode_again_lenient :
    decode (envelope "<params><x>1</x><y><date/></y></params>") =
        .ok (.params [.string "1", .scalar ⟨.unregistered "date", ""⟩]) ∧
      decode (envelope (Node.params [.string "1", .scalar ⟨.unregistered "date", ""⟩]).toWire) =
        .ok (.params [.string "1", .scalar ⟨.unregistered "date", ""⟩]) := by
  have hread : decode (envelope "<params><x>1</x><y><date/></y></params>") =
      .ok (.params [.string "1", .scalar ⟨.unregistered "date", ""⟩]) := by decide +kernel
  have hdate : Closable Markup.isSeparator "date" := ⟨by simp, by decide, by simp, by simp [Markup.isSeparator]⟩
  obtain ⟨hreader, hagain⟩ := decode_again
  have hagain := hagain Markup.isSeparator _ _ (fun c hc => by simp [Markup.isAsciiBlank, hc])
    (hreader ▸ hread) (by simp [Everywhere, EveryItem, Tagged, Node.string, hdate])
  rw [hreader] at hagain
  exact ⟨hread, hagain.2 ⟨by simp [Everywhere, EveryItem, NoBareValue, Node.string], by decide⟩⟩

/-- Every limit is there for a reply that is not read again: an item that is looked through twice,
    a form that nests less than what is written, and tags that end in a slash, hold a `>` or leave
    a quote open, or that end in a form feed where that is taken off an end tag. -/
theorem decode_again_fails :
    (decode (envelope "<array><data><i><value><value>1</value></value></i></data></array>") =
        .ok (.array [.scalar ⟨.unregistered "value", "1"⟩]) ∧
      decode (envelope (Node.array [.scalar ⟨.unregistered "value", "1"⟩]).toWire) =
        .ok (.array [.string "1"])) ∧
    (decode (unwrappedReply 170) = .ok (nested 170) ∧
      decode (envelope (nested 170).toWire) ≠ .ok (nested 170)) ∧
    (∀ entry ∈ [("<a/ />", "a/"), ("<a'>'/>", "a'>'"), ("<a' '/>", "a'")],
      decode (envelope entry.1) = .ok (.scalar ⟨.unregistered entry.2, ""⟩) ∧
        decode (envelope (Node.scalar ⟨.unregistered entry.2, ""⟩).toWire) ≠
          .ok (.scalar ⟨.unregistered entry.2, ""⟩)) ∧
    decodeBy Markup.isAsciiBlank (envelope "<a\x0c/>") =
        .ok (.scalar ⟨.unregistered "a\x0c", ""⟩) ∧
      decodeBy Markup.isAsciiBlank (envelope (Node.scalar ⟨.unregistered "a\x0c", ""⟩).toWire) ≠
        .ok (.scalar ⟨.unregistered "a\x0c", ""⟩) := by
  obtain ⟨hread, hagain⟩ := decode_unwrappedReply 170
  refine ⟨by decide +kernel, ⟨hread (by decide), ?_⟩, by decide +kernel, by decide +kernel,
    by decide +kernel⟩
  intro h
  exact absurd (hagain.1 h) (by decide)

end Reply

end XmlRpc
