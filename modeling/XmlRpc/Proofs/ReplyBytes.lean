/-
  XmlRpc/Proofs/ReplyBytes.lean
  =============================
  **A reply says no more than it has room for.**

  Every node of a reply comes from an element of its own: a scalar and a composite
  from the typed element, a string without a type from the `value` around it.  The
  name of a member comes from another element than its value.  So a node weighs no
  more than its element (`bytes_decodeTyped` and its companions, by induction on the
  element tree), and an element no more than its text in the document.

  Members that are replaced cost nothing: a struct weighs no more than the members
  that were mentioned (`membersBytes_ofList`).
-/
import XmlRpc.Proofs.TreeBytes

namespace XmlRpc

/-! ### What a node weighs -/

namespace Node

mutual

/-- The bytes of the scalars' texts and of the members' names in a node. -/
def textBytes : Node → Nat
  | scalar s => s.raw.utf8ByteSize
  | array items => itemsTextBytes items
  | struct members => membersTextBytes members
  | params items => itemsTextBytes items

def itemsTextBytes : List Node → Nat
  | [] => 0
  | item :: rest => textBytes item + itemsTextBytes rest

def membersTextBytes : List (String × Node) → Nat
  | [] => 0
  | (name, child) :: rest => name.utf8ByteSize + textBytes child + membersTextBytes rest

end

/-- What members weigh together. -/
def membersBytes (members : List (String × Node)) : Nat :=
  membersSize members + membersTextBytes members

theorem membersBytes_cons (name : String) (child : Node) (rest : List (String × Node)) :
    membersBytes ((name, child) :: rest) =
      name.utf8ByteSize + (child.size + child.textBytes) + membersBytes rest := by
  rw [membersBytes, membersBytes, membersSize, membersTextBytes]
  omega

theorem membersBytes_insert (name : String) (child : Node) (members : Members Node) :
    membersBytes (Members.insert name child members) ≤
      membersBytes members + (name.utf8ByteSize + (child.size + child.textBytes)) := by
  induction members with
  | nil =>
    rw [Members.insert, membersBytes_cons]
    omega
  | cons entry rest ih =>
    obtain ⟨key, old⟩ := entry
    rw [Members.insert]
    split
    · next hkey =>
      rw [membersBytes_cons, membersBytes_cons, hkey]
      omega
    · rw [membersBytes_cons, membersBytes_cons]
      omega

theorem membersBytes_foldl (members entries : List (String × Node)) :
    membersBytes (entries.foldl (fun members entry => Members.insert entry.1 entry.2 members)
      members) ≤ membersBytes members + membersBytes entries := by
  induction entries generalizing members with
  | nil => exact Nat.le_refl _
  | cons entry entries ih =>
    obtain ⟨name, child⟩ := entry
    have hinsert := membersBytes_insert name child members
    have hrest := ih (Members.insert name child members)
    rw [List.foldl_cons, membersBytes_cons]
    dsimp only
    omega

/-- A struct weighs no more than the members that were mentioned. -/
theorem membersBytes_ofList (entries : List (String × Node)) :
    membersBytes (Members.ofList entries) ≤ membersBytes entries := by
  have hempty := membersBytes_foldl [] entries
  rw [show membersBytes [] = 0 from rfl, Nat.zero_add] at hempty
  exact hempty

end Node

namespace Reply

open Markup (Element)
open Markup.Element (bytesIn bytes_eq bytesIn_children_le)
open Node (textBytes itemsTextBytes membersTextBytes itemsSize membersSize membersBytes)

theorem utf8ByteSize_memberName (parts : List Element) :
    (memberName parts).utf8ByteSize ≤ bytesIn parts := by
  induction parts with
  | nil => exact Nat.le_refl _
  | cons part rest ih =>
    rw [memberName_cons, bytesIn, bytes_eq]
    split <;> omega

/-- A scalar weighs less than an element with its text. -/
theorem bytes_scalar (kind : ScalarKind) (name text : String) (children : List Element) :
    (Node.scalar ⟨kind, text⟩).size + (Node.scalar ⟨kind, text⟩).textBytes ≤
      Element.bytes ⟨name, text, children⟩ := by
  rw [Node.size, textBytes, Element.bytes]
  dsimp only
  omega

mutual

/-- Every node of a `value` comes from an element of its own. -/
theorem bytes_decodeValue (e : Element) {n : Node} (h : decodeValue e = .ok n) :
    n.size + n.textBytes ≤ e.bytes := by
  cases e with
  | mk name text children =>
    cases children with
    | nil =>
      rw [decodeValue] at h
      split at h
      · cases h
      · cases h
        exact bytes_scalar .string name text []
    | cons typed rest =>
      rw [decodeValue] at h
      have htyped := bytes_decodeTyped typed h
      rw [Element.bytes, bytesIn]
      omega

theorem bytes_decodeTyped (e : Element) {n : Node} (h : decodeTyped e = .ok n) :
    n.size + n.textBytes ≤ e.bytes := by
  cases e with
  | mk name text children =>
    rw [decodeTyped] at h
    split at h
    · obtain ⟨items, hdata, rfl⟩ := ok_of_map h
      have hitems := bytes_decodeData children hdata
      rw [Node.size, textBytes, Element.bytes]
      omega
    · split at h
      · obtain ⟨items, hentries, rfl⟩ := ok_of_map h
        have hitems := bytes_decodeEntries children hentries
        rw [Node.size, textBytes, Element.bytes]
        omega
      · split at h
        · obtain ⟨members, hmembers, rfl⟩ := ok_of_map h
          have hmentioned := bytes_decodeMembers children hmembers
          have hkept := Node.membersBytes_ofList members
          rw [membersBytes] at hkept
          rw [Node.size, textBytes, Element.bytes]
          omega
        · cases h
          exact bytes_scalar _ name text children

theorem bytes_decodeData (parts : List Element) {items : List Node}
    (h : decodeData parts = .ok items) : itemsSize items + itemsTextBytes items ≤ bytesIn parts := by
  cases parts with
  | nil => cases h
  | cons part rest =>
    obtain ⟨name, text, entries⟩ := part
    rw [bytesIn]
    rw [decodeData] at h
    split at h
    · have hentries := bytes_decodeEntries entries h
      have hpart := bytesIn_children_le ⟨name, text, entries⟩
      change bytesIn entries ≤ _ at hpart
      omega
    · have hrest := bytes_decodeData rest h
      omega

theorem bytes_decodeEntries (entries : List Element) {items : List Node}
    (h : decodeEntries entries = .ok items) :
    itemsSize items + itemsTextBytes items ≤ bytesIn entries := by
  cases entries with
  | nil =>
    cases h
    exact Nat.le_refl _
  | cons entry rest =>
    obtain ⟨item, nodes, rfl, hentry, hrest⟩ := of_decodeEntries_cons h
    have hitem := bytes_decodeEntry entry hentry
    have hnodes := bytes_decodeEntries rest hrest
    rw [itemsSize, itemsTextBytes, bytesIn]
    omega

theorem bytes_decodeEntry (e : Element) {n : Node} (h : decodeEntry e = .ok n) :
    n.size + n.textBytes ≤ e.bytes := by
  cases e with
  | mk name text children =>
    cases children with
    | nil =>
      rw [decodeEntry] at h
      split at h
      · cases h
      · cases h
        exact bytes_scalar .string name text []
    | cons inner rest =>
      rw [Element.bytes, bytesIn]
      rw [decodeEntry] at h
      split at h
      · have hinner := bytes_decodeValue inner h
        omega
      · have hinner := bytes_decodeTyped inner h
        omega

theorem bytes_decodeMembers (entries : List Element) {members : List (String × Node)}
    (h : decodeMembers entries = .ok members) : membersBytes members ≤ bytesIn entries := by
  cases entries with
  | nil =>
    cases h
    exact Nat.le_refl _
  | cons entry rest =>
    obtain ⟨name, text, parts⟩ := entry
    obtain ⟨node, nodes, rfl, hvalue, hrest⟩ := of_decodeMembers_cons h
    have hmember := bytes_decodeMemberValue _ parts hvalue
    have hnodes := bytes_decodeMembers rest hrest
    rw [Node.membersBytes_cons, bytesIn, Element.bytes]
    omega

/-- The name of a member comes from another element than its value. -/
theorem bytes_decodeMemberValue (name : String) (parts : List Element) {n : Node}
    (h : decodeMemberValue name parts = .ok n) :
    (memberName parts).utf8ByteSize + (n.size + n.textBytes) ≤ bytesIn parts := by
  cases parts with
  | nil => cases h
  | cons part rest =>
    rw [memberName_cons, bytesIn]
    rw [decodeMemberValue] at h
    split at h
    · next hvalue =>
      have hother : ¬part.name = "name" := by
        rw [hvalue]
        decide
      have hnode := bytes_decodeValue part h
      have hname := utf8ByteSize_memberName rest
      rw [if_neg hother]
      omega
    · have hrest := bytes_decodeMemberValue name rest h
      rw [bytes_eq part]
      split <;> omega

end

/-! ### A whole reply -/

theorem bytes_decodeDocument {document : Element} {n : Node}
    (h : decodeDocument document = .ok n) : n.size + n.textBytes ≤ document.bytes := by
  obtain ⟨response, params, param, value, hresponse, hparams, hparam, hvalue, h⟩ :=
    of_decodeDocument h
  calc n.size + n.textBytes ≤ value.bytes := bytes_decodeValue value h
    _ ≤ param.bytes := Element.bytes_child? hvalue
    _ ≤ params.bytes := Element.bytes_child? hparam
    _ ≤ response.bytes := Element.bytes_child? hparams
    _ ≤ document.bytes := Element.bytes_find? document hresponse

/-- **No reply is amplified.**  The elements of a document, each with its name, its text and three
    bytes, take no more room than the document; and the nodes of a reply, with the texts of the
    scalars and the names of the members, take no more room than the reply. -/
theorem bytes_le_utf8ByteSize (xml : String) :
    (∀ root, Element.parse xml = .ok root → root.bytes ≤ xml.utf8ByteSize) ∧
    (∀ n, decode xml = .ok n → n.size + n.textBytes ≤ xml.utf8ByteSize) := by
  constructor
  · intro root h
    exact Element.bytes_parse h
  · intro n h
    obtain ⟨root, hroot, hnode⟩ := document_of_decode h
    exact Nat.le_trans (bytes_decodeDocument hnode) (Element.bytes_parse hroot)

/-- A reply whose texts are references, and whose last `>` is missing. -/
def referencedReply : String :=
  "<methodResponse><params><param><value><struct><member><name>&#65;</name><value>&amp;&#x3c;" ++
    "</value></member></struct></value></param></params></methodResponse"

theorem bytes_le_utf8ByteSize_referencedReply :
    (∃ root, Element.parse referencedReply = .ok root ∧
      root.bytes ≤ referencedReply.utf8ByteSize) ∧
    decode referencedReply = .ok (.struct [("A", .string "&<")]) ∧
    (Node.struct [("A", .string "&<")]).size + (Node.struct [("A", .string "&<")]).textBytes ≤
      referencedReply.utf8ByteSize := by
  have hdecode : decode referencedReply = .ok (.struct [("A", .string "&<")]) := by
    decide +kernel
  obtain ⟨root, hroot, -⟩ := document_of_decode hdecode
  obtain ⟨htree, hnode⟩ := bytes_le_utf8ByteSize referencedReply
  exact ⟨⟨root, hroot, htree root hroot⟩, hdecode, hnode _ hdecode⟩

end Reply

end XmlRpc
