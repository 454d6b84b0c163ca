/-
  XmlRpc/Proofs/Overwriting.lean
  ==============================
  **A member that is mentioned again keeps its place and takes the new value.**

  A struct is built by insertions, and the same name may be inserted any number of
  times.  `KeepsLast` says what is left of such a history: the names in the order of
  their first insertions, each with the value of its last one.  The order looks at the
  history from its beginning and the values from its end, so the inductions here run
  over the last insertion (`ofList_concat`).

  A struct in a reply has its children as such a history (`struct_keeps_last`).
-/
import XmlRpc.Proofs.Subnodes
import XmlRpc.Reply.Value
import Mathlib.Data.Finset.Card
import Mathlib.Data.List.Induction

namespace XmlRpc

namespace Members

variable {α : Type}

/-- The value of the last entry for `name`. -/
def lastValue? (name : String) (history : List (String × α)) : Option α :=
  ((history.filter fun entry => entry.1 = name).getLast?).map Prod.snd

/-- Each name of a history is kept where it was first inserted, with the value it was given last. -/
structure KeepsLast (history : List (String × α)) (members : Members α) : Prop where
  order : names members = (names history).eraseDups
  distinct : (names members).Nodup
  values : ∀ entry ∈ members, lastValue? entry.1 history = some entry.2
  lookup : ∀ name, get? name members = lastValue? name history
  absent : ∀ name, name ∉ names history → get? name members = none
  length : members.length = (names history).toFinset.card

/-! ### One more insertion -/

section Step

variable (history : List (String × α)) (entry : String × α) (name : String)

theorem ofList_concat :
    ofList (history ++ [entry]) = insert entry.1 entry.2 (ofList history) :=
  List.foldl_concat _ _ _ _

theorem names_insert (value : α) (members : Members α) :
    names (insert name value members) =
      if name ∈ names members then names members else names members ++ [name] := by
  split
  · next hmem =>
    induction members with
    | nil => cases hmem
    | cons first rest ih =>
      obtain ⟨key, old⟩ := first
      by_cases hkey : key = name
      · rw [insert, if_pos hkey]
        rfl
      · have hrest : name ∈ names rest := (List.mem_cons.1 hmem).resolve_left (Ne.symm hkey)
        rw [insert, if_neg hkey]
        exact congrArg (key :: ·) (ih hrest)
  · next hnot =>
    rw [insert_of_not_mem hnot]
    exact List.map_append

theorem eraseDups_concat (keys : List String) :
    (keys ++ [name]).eraseDups =
      if name ∈ keys then keys.eraseDups else keys.eraseDups ++ [name] := by
  rw [List.eraseDups_append]
  split
  · next hmem => simp [List.removeAll, hmem]
  · next hnot => simp [List.removeAll, List.eraseDups_cons, hnot]

theorem get?_insert (key : String) (value : α) (members : Members α) :
    get? name (insert key value members) =
      if key = name then some value else get? name members := by
  split
  · next hkey => rw [hkey, get?_insert_self]
  · next hkey => exact get?_insert_of_ne (Ne.symm hkey) value members

theorem lastValue?_concat :
    lastValue? name (history ++ [entry]) =
      if entry.1 = name then some entry.2 else lastValue? name history := by
  split
  · next hname => simp [lastValue?, hname]
  · next hname => simp [lastValue?, hname]

end Step

/-! ### A whole history -/

theorem names_ofList (history : List (String × α)) :
    names (ofList history) = (names history).eraseDups := by
  induction history using List.reverseRecOn with
  | nil => rfl
  | append_singleton history entry ih =>
    have hnames : names (history ++ [entry]) = names history ++ [entry.1] := List.map_append
    rw [ofList_concat, names_insert, hnames, eraseDups_concat, ih]
    simp only [List.mem_eraseDups]

theorem get?_ofList (name : String) (history : List (String × α)) :
    get? name (ofList history) = lastValue? name history := by
  induction history using List.reverseRecOn with
  | nil => rfl
  | append_singleton history entry ih => rw [ofList_concat, get?_insert, lastValue?_concat, ih]

theorem get?_of_mem {members : Members α} {entry : String × α} (hdistinct : (names members).Nodup)
    (hmem : entry ∈ members) : get? entry.1 members = some entry.2 := by
  induction members with
  | nil => cases hmem
  | cons first rest ih =>
    obtain ⟨key, old⟩ := first
    obtain ⟨hkey, hrest⟩ := List.nodup_cons.1 hdistinct
    rcases List.mem_cons.1 hmem with rfl | hlater
    · exact if_pos rfl
    · have hne : key ≠ entry.1 := fun heq => hkey (List.mem_map.2 ⟨entry, hlater, heq.symm⟩)
      rw [get?, if_neg hne]
      exact ih hrest hlater

theorem lastValue?_of_not_mem {name : String} {history : List (String × α)}
    (h : name ∉ names history) : lastValue? name history = none := by
  have hnone : history.filter (fun entry => entry.1 = name) = [] := by
    rw [List.filter_eq_nil_iff]
    intro entry hentry hname
    exact h (List.mem_map.2 ⟨entry, hentry, of_decide_eq_true hname⟩)
  rw [lastValue?, hnone]
  rfl

theorem keepsLast_ofList (history : List (String × α)) : KeepsLast history (ofList history) := by
  have hdistinct : (names (ofList history)).Nodup := nodup_ofList history
  have horder : names (ofList history) = (names history).eraseDups := names_ofList history
  constructor
  case order => exact horder
  case distinct => exact hdistinct
  case values =>
    intro entry hentry
    rw [← get?_ofList]
    exact get?_of_mem hdistinct hentry
  case lookup =>
    intro name
    exact get?_ofList name history
  case absent =>
    intro name hname
    rw [get?_ofList, lastValue?_of_not_mem hname]
  case length =>
    have hfinset : (names history).toFinset = (names (ofList history)).toFinset := by
      ext name
      rw [List.mem_toFinset, List.mem_toFinset, horder, List.mem_eraseDups]
    rw [hfinset, List.toFinset_card_of_nodup hdistinct]
    exact (List.length_map _).symm

end Members

namespace Reply

open Markup (Element)

/-- The last of the children of a struct that is a member called `name`. -/
def lastCalled? (name : String) (children : List Element) : Option Element :=
  (children.filter fun member => memberName member.children = name).getLast?

/-! ### The children of a struct as a history -/

/-- What a child of a struct says: a name, and what the `value` in it stands for. -/
def mention (member : Element) : String × Option (Except Malformed Node) :=
  (memberName member.children, (member.child? "value").map decodeValue)

theorem decodeMemberValue_of_find? {name : String} {parts : List Element} {value : Element}
    (h : parts.find? (fun part => part.name = "value") = some value) :
    decodeMemberValue name parts = decodeValue value := by
  induction parts with
  | nil => cases h
  | cons part rest ih =>
    by_cases hvalue : part.name = "value"
    · rw [List.find?_cons_of_pos (by simpa using hvalue)] at h
      rw [decodeMemberValue, if_pos hvalue, Option.some.inj h]
    · rw [List.find?_cons_of_neg (by simpa using hvalue)] at h
      rw [decodeMemberValue, if_neg hvalue, ih h]

theorem decodeMemberValue_of_mention {member : Element} {node : Node} (name : String)
    (h : (mention member).2 = some (.ok node)) :
    decodeMemberValue name member.children = .ok node := by
  obtain ⟨value, hvalue, hnode⟩ := Option.map_eq_some_iff.1 h
  rw [decodeMemberValue_of_find? hvalue, hnode]

/-- If all of them can be decoded, the entries of a struct are what its children say. -/
theorem decodeMembers_of_mention {children : List Element}
    (h : ∀ member ∈ children, ∃ node, (mention member).2 = some (.ok node)) :
    ∃ entries, decodeMembers children = .ok entries ∧
      children.map mention = entries.map fun entry => (entry.1, some (.ok entry.2)) := by
  induction children with
  | nil => exact ⟨[], rfl, rfl⟩
  | cons member rest ih =>
    obtain ⟨node, hnode⟩ := h member List.mem_cons_self
    obtain ⟨entries, hentries, hmentions⟩ :=
      ih fun member hmember => h member (List.mem_cons_of_mem _ hmember)
    obtain ⟨name, text, parts⟩ := member
    refine ⟨(memberName parts, node) :: entries, ?_, ?_⟩
    · rw [decodeMembers, decodeMemberValue_of_mention (memberName parts) hnode, hentries]
      rfl
    · rw [List.map_cons, List.map_cons, hmentions, ← hnode]
      rfl

section Mentions

variable {children : List Element} {entries : List (String × Node)}
  (hmentions : children.map mention = entries.map fun entry => (entry.1, some (.ok entry.2)))

include hmentions

theorem names_of_mention :
    Members.names entries = children.map fun member => memberName member.children := by
  have hfirst := congrArg (List.map Prod.fst) hmentions
  rw [List.map_map, List.map_map] at hfirst
  exact hfirst.symm

theorem lastCalled?_of_lastValue? {name : String} {node : Node}
    (h : Members.lastValue? name entries = some node) :
    ∃ member, lastCalled? name children = some member ∧
      (member.child? "value").map decodeValue = some (.ok node) := by
  obtain ⟨entry, hentry, rfl⟩ := Option.map_eq_some_iff.1 h
  -- Children and entries are alike in what they say, so the last that say `name` are alike too.
  have hlast : (lastCalled? name children).map mention = some (entry.1, some (.ok entry.2)) :=
    calc (lastCalled? name children).map mention
      _ = ((children.map mention).filter fun said => said.1 = name).getLast? := by
        rw [List.filter_map, List.getLast?_map]
        rfl
      _ = ((entries.filter fun entry => entry.1 = name).getLast?).map
          fun entry => (entry.1, some (.ok entry.2)) := by
        rw [hmentions, List.filter_map, List.getLast?_map]
        rfl
      _ = some (entry.1, some (.ok entry.2)) := by
        rw [hentry]
        rfl
  obtain ⟨member, hmember, heq⟩ := Option.map_eq_some_iff.1 hlast
  exact ⟨member, hmember, congrArg Prod.snd heq⟩

end Mentions

/-- **A struct keeps the last value of each name where the name came first.**  So it does of any
    history of insertions, and so a struct in a reply whose children can all be decoded is decoded
    to the names of its children in the order in which they come first, each with the node of the
    last child that is called so. -/
theorem struct_keeps_last :
    (∀ history : List (String × Node), Members.KeepsLast history (Members.ofList history)) ∧
    ∀ (text : String) (children : List Element),
      (∀ member ∈ children, ∃ value node,
        member.child? "value" = some value ∧ decodeValue value = .ok node) →
      ∃ members, decodeTyped ⟨"struct", text, children⟩ = .ok (.struct members) ∧
        Members.names members =
          (children.map fun member => memberName member.children).eraseDups ∧
        ∀ entry ∈ members, ∃ member value, lastCalled? entry.1 children = some member ∧
          member.child? "value" = some value ∧ decodeValue value = .ok entry.2 := by
  constructor
  · exact Members.keepsLast_ofList
  · intro text children h
    have hsaid : ∀ member ∈ children, ∃ node, (mention member).2 = some (.ok node) := by
      intro member hmember
      obtain ⟨value, node, hvalue, hnode⟩ := h member hmember
      exact ⟨node, Option.map_eq_some_iff.2 ⟨value, hvalue, hnode⟩⟩
    obtain ⟨entries, hentries, hmentions⟩ := decodeMembers_of_mention hsaid
    have hkeeps := Members.keepsLast_ofList entries
    refine ⟨Members.ofList entries, ?_, ?_, ?_⟩
    · rw [decodeTyped, hentries]
      rfl
    · rw [hkeeps.order, names_of_mention hmentions]
    · intro entry hentry
      obtain ⟨member, hmember, hvalue⟩ :=
        lastCalled?_of_lastValue? hmentions (hkeeps.values entry hentry)
      obtain ⟨value, hvalue, hnode⟩ := Option.map_eq_some_iff.1 hvalue
      exact ⟨member, value, hmember, hvalue, hnode⟩

/-- A member of a struct in a reply, with the parts before its `value`. -/
def memberElement (before : List Element) (number : String) : Element :=
  ⟨"member", "", before ++ [⟨"value", "", [⟨"i4", number, []⟩]⟩]⟩

/-- Of two members called `a`, with one without a name in between, the first gives the place and
    the last gives the number. -/
theorem struct_keeps_last_repeated :
    let named := [(⟨"name", "a", []⟩ : Element)]
    let children := [memberElement named "1", memberElement [] "2", memberElement named "3"]
    ∃ members, decodeTyped ⟨"struct", "\n", children⟩ = .ok (.struct members) ∧
      Members.names members = ["a", ""] ∧
      members = [("a", .scalar ⟨.integer, "3"⟩), ("", .scalar ⟨.integer, "2"⟩)] := by
  intro named children
  have hdecoded : ∀ member ∈ children, ∃ value node,
      member.child? "value" = some value ∧ decodeValue value = .ok node := by
    intro member hmember
    simp only [children, List.mem_cons, List.not_mem_nil, or_false] at hmember
    rcases hmember with rfl | rfl | rfl <;> exact ⟨_, _, rfl, rfl⟩
  obtain ⟨members, hmembers, hnames, -⟩ := struct_keeps_last.2 "\n" children hdecoded
  refine ⟨members, hmembers, hnames.trans (by decide), ?_⟩
  cases hmembers
  rfl

end Reply

end XmlRpc
