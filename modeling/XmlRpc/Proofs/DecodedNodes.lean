/-
  XmlRpc/Proofs/DecodedNodes.lean
  ===============================
  **What is true of every node that a reply is decoded to.**

  A decoder is lenient about names and wrappers, but not everything can come out of
  it: the members of a struct have distinct names, because a later member replaces
  an earlier one, and an unregistered tag is the name of some element and none of
  the names that a decoder has a meaning for.  `everywhere_of_decode` states both for
  the whole node.

  The induction is on the element tree, one lemma for each of the seven functions
  of the decoder.
-/
import XmlRpc.Proofs.ReadNames
import XmlRpc.Proofs.RoundTrip

namespace XmlRpc

open Markup (Element ReadName)

/-- A tag of an element that no decoder has a meaning for. -/
theorem ScalarKind.of_ofWireTag {name tag : String} (h : ofWireTag name = .unregistered tag) :
    tag = name ∧ ofTag? tag = none := by
  rw [ofWireTag] at h
  rcases hkind : ofTag? name with _ | kind
  · rw [hkind] at h
    cases h
    exact ⟨rfl, hkind⟩
  · rw [hkind] at h
    change kind = .unregistered tag at h
    subst h
    unfold ofTag? at hkind
    split at hkind <;> cases hkind

namespace Reply

open Node (Everywhere EveryItem EveryMember)

/-! ### Steps that succeed -/

section Steps

variable {ε α β : Type} {x : Except ε α} {b : β}

theorem ok_of_map {f : α → β} (h : x.map f = .ok b) : ∃ a, x = .ok a ∧ f a = b := by
  cases x with
  | error error => cases h
  | ok a => exact ⟨a, rfl, Except.ok.inj h⟩

theorem error_of_map {f : α → β} {error : ε} (h : x.map f = .error error) : x = .error error := by
  cases x with
  | error error' => rw [Except.error.inj h]
  | ok a => cases h

theorem ok_of_bind {f : α → Except ε β} (h : x >>= f = .ok b) : ∃ a, x = .ok a ∧ f a = .ok b := by
  cases x with
  | error error => cases h
  | ok a => exact ⟨a, rfl, h⟩

theorem ok_of_mapError {a : α} {f : ε → β} (h : x.mapError f = .ok a) : x = .ok a := by
  cases x with
  | error error => cases h
  | ok a' => rw [Except.ok.inj h]

end Steps

/-- A sequence of entries is decoded entry by entry. -/
theorem of_decodeEntries_cons {entry : Element} {rest : List Element} {items : List Node}
    (h : decodeEntries (entry :: rest) = .ok items) :
    ∃ item nodes, items = item :: nodes ∧ decodeEntry entry = .ok item ∧
      decodeEntries rest = .ok nodes := by
  rw [decodeEntries] at h
  obtain ⟨item, hitem, h⟩ := ok_of_bind h
  obtain ⟨nodes, hnodes, h⟩ := ok_of_bind h
  exact ⟨item, nodes, (Except.ok.inj h).symm, hitem, hnodes⟩

/-- The members of a struct are decoded one after the other. -/
theorem of_decodeMembers_cons {name text : String} {parts rest : List Element}
    {members : List (String × Node)}
    (h : decodeMembers (⟨name, text, parts⟩ :: rest) = .ok members) :
    ∃ node nodes, members = (memberName parts, node) :: nodes ∧
      decodeMemberValue (memberName parts) parts = .ok node ∧ decodeMembers rest = .ok nodes := by
  rw [decodeMembers] at h
  obtain ⟨node, hnode, h⟩ := ok_of_bind h
  obtain ⟨nodes, hnodes, h⟩ := ok_of_bind h
  exact ⟨node, nodes, (Except.ok.inj h).symm, hnode, hnodes⟩

/-- The value of a reply is found level by level. -/
theorem of_decodeDocument {document : Element} {n : Node} (h : decodeDocument document = .ok n) :
    ∃ response params param value, document.find? "methodResponse" = some response ∧
      response.child? "params" = some params ∧ params.child? "param" = some param ∧
      param.child? "value" = some value ∧ decodeValue value = .ok n := by
  unfold decodeDocument at h
  split at h
  · cases h
  · next response hresponse =>
    split at h
    · cases h
    · next params hparams =>
      split at h
      · cases h
      · next param hparam =>
        split at h
        · cases h
        · next value hvalue =>
          exact ⟨response, params, param, value, hresponse, hparams, hparam, hvalue, h⟩

/-! ### The invariant -/

/-- What a decoder makes of one place in a tree whose names are in a class. -/
def Decoded (P : String → Prop) (n : Node) : Prop :=
  n.Distinct ∧ n.Tagged fun tag => P tag ∧ tag ∉ reservedTags

variable {P : String → Prop}

theorem decoded_scalar {name : String} (hname : P name) (harray : name ≠ "array")
    (hparams : name ≠ "params") (hstruct : name ≠ "struct") (text : String) :
    Decoded P (.scalar (Scalar.ofWireTag name text)) := by
  refine ⟨trivial, fun tag htag => ?_⟩
  obtain ⟨rfl, hfree⟩ := ScalarKind.of_ofWireTag htag
  refine ⟨hname, fun hmem => ?_⟩
  simp only [reservedTags, List.mem_cons, List.not_mem_nil, or_false] at hmem
  rcases hmem with rfl | rfl | rfl | rfl | rfl | rfl | rfl | rfl | rfl | rfl
  all_goals first
    | exact absurd rfl harray
    | exact absurd rfl hparams
    | exact absurd rfl hstruct
    | cases hfree

/-- The members of a struct are among those that were mentioned. -/
theorem everyMember_ofList {Q : Node → Prop} {entries : List (String × Node)}
    (h : EveryMember Q entries) : EveryMember Q (Members.ofList entries) := by
  rw [Node.everyMember_iff] at h ⊢
  intro entry hentry
  obtain ⟨mentioned, hmem, heq⟩ := Members.value_of_mem_ofList hentry
  rw [heq]
  exact h mentioned hmem

mutual

theorem everywhere_of_decodeValue (e : Element) (he : e.EveryName P) {n : Node}
    (h : decodeValue e = .ok n) : n.Everywhere (Decoded P) := by
  cases e with
  | mk name text children =>
    cases children with
    | nil =>
      rw [decodeValue] at h
      split at h
      · cases h
      · cases h
        exact ⟨trivial, fun tag htag => by cases htag⟩
    | cons typed rest =>
      rw [decodeValue] at h
      exact everywhere_of_decodeTyped typed (he.children typed (by simp)) h

theorem everywhere_of_decodeTyped (e : Element) (he : e.EveryName P) {n : Node}
    (h : decodeTyped e = .ok n) : n.Everywhere (Decoded P) := by
  cases e with
  | mk name text children =>
    rw [decodeTyped] at h
    split at h
    · obtain ⟨items, hdata, rfl⟩ := ok_of_map h
      rw [Everywhere]
      exact ⟨⟨trivial, trivial⟩, everyItem_of_decodeData children he.children hdata⟩
    · next harray =>
      split at h
      · obtain ⟨items, hentries, rfl⟩ := ok_of_map h
        rw [Everywhere]
        exact ⟨⟨trivial, trivial⟩, everyItem_of_decodeEntries children he.children hentries⟩
      · next hparams =>
        split at h
        · obtain ⟨members, hmembers, rfl⟩ := ok_of_map h
          rw [Everywhere]
          exact ⟨⟨Members.nodup_ofList members, trivial⟩,
            everyMember_ofList (everyMember_of_decodeMembers children he.children hmembers)⟩
        · next hstruct =>
          cases h
          exact decoded_scalar he.name harray hparams hstruct text

theorem everyItem_of_decodeData (parts : List Element) (hparts : ∀ e ∈ parts, e.EveryName P)
    {items : List Node} (h : decodeData parts = .ok items) : EveryItem (Decoded P) items := by
  cases parts with
  | nil => cases h
  | cons part rest =>
    obtain ⟨name, text, entries⟩ := part
    rw [decodeData] at h
    split at h
    · exact everyItem_of_decodeEntries entries (hparts _ List.mem_cons_self).children h
    · exact everyItem_of_decodeData rest (fun e he => hparts e (by simp [he])) h

theorem everyItem_of_decodeEntries (entries : List Element)
    (hentries : ∀ e ∈ entries, e.EveryName P) {items : List Node}
    (h : decodeEntries entries = .ok items) : EveryItem (Decoded P) items := by
  cases entries with
  | nil =>
    cases h
    trivial
  | cons entry rest =>
    obtain ⟨item, nodes, rfl, hentry, hrest⟩ := of_decodeEntries_cons h
    rw [EveryItem]
    exact ⟨everywhere_of_decodeEntry entry (hentries entry (by simp)) hentry,
      everyItem_of_decodeEntries rest (fun e he => hentries e (by simp [he])) hrest⟩

theorem everywhere_of_decodeEntry (e : Element) (he : e.EveryName P) {n : Node}
    (h : decodeEntry e = .ok n) : n.Everywhere (Decoded P) := by
  cases e with
  | mk name text children =>
    cases children with
    | nil =>
      rw [decodeEntry] at h
      split at h
      · cases h
      · cases h
        exact ⟨trivial, fun tag htag => by cases htag⟩
    | cons inner rest =>
      rw [decodeEntry] at h
      have hinner := he.children inner (by simp)
      split at h
      · exact everywhere_of_decodeValue inner hinner h
      · exact everywhere_of_decodeTyped inner hinner h

theorem everyMember_of_decodeMembers (entries : List Element)
    (hentries : ∀ e ∈ entries, e.EveryName P) {members : List (String × Node)}
    (h : decodeMembers entries = .ok members) : EveryMember (Decoded P) members := by
  cases entries with
  | nil =>
    cases h
    trivial
  | cons entry rest =>
    obtain ⟨name, text, parts⟩ := entry
    obtain ⟨node, nodes, rfl, hvalue, hrest⟩ := of_decodeMembers_cons h
    have hparts := (hentries _ List.mem_cons_self).children
    rw [EveryMember]
    exact ⟨everywhere_of_decodeMemberValue _ parts hparts hvalue,
      everyMember_of_decodeMembers rest (fun e he => hentries e (by simp [he])) hrest⟩

theorem everywhere_of_decodeMemberValue (name : String) (parts : List Element)
    (hparts : ∀ e ∈ parts, e.EveryName P) {n : Node}
    (h : decodeMemberValue name parts = .ok n) : n.Everywhere (Decoded P) := by
  cases parts with
  | nil => cases h
  | cons part rest =>
    rw [decodeMemberValue] at h
    split at h
    · exact everywhere_of_decodeValue part (hparts part (by simp)) h
    · exact everywhere_of_decodeMemberValue name rest (fun e he => hparts e (by simp [he])) h

end

/-! ### A whole reply -/

theorem everywhere_of_decodeDocument {P : String → Prop} {document : Element} {n : Node}
    (hdocument : document.EveryName P) (h : decodeDocument document = .ok n) :
    n.Everywhere (Decoded P) := by
  obtain ⟨response, params, param, value, hresponse, hparams, hparam, hvalue, h⟩ :=
    of_decodeDocument h
  have hnames := Element.everyName_of_find? document hdocument hresponse
  have hnames := Element.everyName_of_child? hnames hparams
  have hnames := Element.everyName_of_child? hnames hparam
  exact everywhere_of_decodeValue value (Element.everyName_of_child? hnames hvalue) h

/-- The value of a reply, for a reader that takes the `blank` characters off the end of an end
    tag. -/
def decodeBy (blank : Char → Bool) (body : String) : Except Error Node := do
  let root ← (Element.parseBy blank body).mapError fun error => ⟨.ofDocumentError error, body⟩
  reported body (decodeDocument root)

theorem decodeBy_isSeparator : decodeBy Markup.isSeparator = decode := by
  funext body
  rw [decodeBy, Element.parseBy_isSeparator]
  rfl

/-- A reply that is decoded has a document. -/
theorem document_of_decodeBy {blank : Char → Bool} {xml : String} {n : Node}
    (h : decodeBy blank xml = .ok n) :
    ∃ root, Element.parseBy blank xml = .ok root ∧ decodeDocument root = .ok n := by
  rw [decodeBy] at h
  obtain ⟨root, hroot, hnode⟩ := ok_of_bind h
  exact ⟨root, ok_of_mapError hroot, ok_of_mapError hnode⟩

/-- **What is true of every node that a reply is decoded to.** -/
theorem everywhere_of_decodeBy {blank : Char → Bool} {xml : String} {n : Node}
    (h : decodeBy blank xml = .ok n) : n.Everywhere (Decoded ReadName) := by
  obtain ⟨root, hroot, hnode⟩ := document_of_decodeBy h
  exact everywhere_of_decodeDocument (Element.everyName_of_parseBy hroot) hnode

theorem document_of_decode {xml : String} {n : Node} (h : decode xml = .ok n) :
    ∃ root, Element.parse xml = .ok root ∧ decodeDocument root = .ok n := by
  rw [← decodeBy_isSeparator] at h
  obtain ⟨root, hroot, hnode⟩ := document_of_decodeBy h
  rw [Element.parseBy_isSeparator] at hroot
  exact ⟨root, hroot, hnode⟩

theorem everywhere_of_decode {xml : String} {n : Node} (h : decode xml = .ok n) :
    n.Everywhere (Decoded ReadName) :=
  everywhere_of_decodeBy (decodeBy_isSeparator ▸ h)

end Reply

end XmlRpc
