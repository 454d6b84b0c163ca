/-
  XmlRpc/Proofs/JsonPaths.lean
  ============================
  **The JSON form of a node has the parts of the node, at the same paths.**

  A path names members of structs and positions in sequences.  The keys of a JSON object
  ascend while the members of a struct stand in the order of their first mention, so the
  two trees are not alike place by place; what they share is what a path leads to
  (`at?_toJson`).  One step suffices for that: looking a name up after sorting is looking it
  up after insertions (`get?_sortedMembers`), whatever was inserted, and distinct names make
  this the lookup in the struct itself.

  Sorting forgets the order of the members, at every depth, and nothing else
  (`toJson_reordered`): insertions of different keys commute (`insertSorted_comm`).
-/
import XmlRpc.Node.Json
import XmlRpc.Proofs.Overwriting

namespace XmlRpc

/-- One step into a composite. -/
inductive PathStep where
  /-- To the member with this name. -/
  | member (name : String)
  /-- To the item at this position. -/
  | item (position : Nat)
deriving DecidableEq, Repr

namespace Json

/-! ### Objects -/

theorem get?_insertSorted (name key : String) (value : Json) (members : Members Json) :
    Members.get? name (insertSorted key value members) =
      if key = name then some value else Members.get? name members := by
  induction members with
  | nil => rfl
  | cons first rest ih =>
    obtain ⟨other, old⟩ := first
    rw [insertSorted]
    split
    · rfl
    · split
      · next hother =>
        subst hother
        by_cases hkey : key = name <;> simp [Members.get?, hkey]
      · next hother =>
        rw [Members.get?, Members.get?, ih]
        by_cases hkey : key = name
        · have hname : ¬other = name := fun heq => hother (hkey.trans heq.symm)
          rw [if_pos hkey, if_pos hkey, if_neg hname]
        · rw [if_neg hkey, if_neg hkey]

theorem insertSorted_comm {key key' : String} (hkey : key ≠ key') (value value' : Json)
    (members : Members Json) :
    insertSorted key value (insertSorted key' value' members) =
      insertSorted key' value' (insertSorted key value members) := by
  induction members with
  | nil => grind [insertSorted]
  | cons first rest ih => grind [insertSorted]

theorem names_insertSorted {name key : String} {value : Json} {members : Members Json}
    (h : name ∈ Members.names (insertSorted key value members)) :
    name = key ∨ name ∈ Members.names members := by
  induction members with
  | nil => simpa [insertSorted, Members.names] using h
  | cons first rest ih =>
    obtain ⟨other, old⟩ := first
    rw [insertSorted] at h
    split at h
    · exact List.mem_cons.1 h
    · split at h
      · exact (List.mem_cons.1 h).imp_right (List.mem_cons_of_mem _)
      · rcases List.mem_cons.1 h with hname | hrest
        · exact Or.inr (hname ▸ List.mem_cons_self)
        · exact (ih hrest).imp_right (List.mem_cons_of_mem _)

/-- The keys of an object ascend, each strictly above the one before it. -/
def Ascending (members : Members Json) : Prop :=
  (Members.names members).Pairwise (· < ·)

theorem ascending_insertSorted {members : Members Json} (h : Ascending members) (key : String)
    (value : Json) : Ascending (insertSorted key value members) := by
  induction members with
  | nil => exact List.pairwise_singleton _ _
  | cons first rest ih =>
    obtain ⟨other, old⟩ := first
    obtain ⟨hother, hrest⟩ := List.pairwise_cons.1 h
    rw [insertSorted]
    split
    · next hkey =>
      refine List.pairwise_cons.2 ⟨?_, h⟩
      intro name hname
      rcases List.mem_cons.1 hname with rfl | hlater
      · exact hkey
      · exact String.lt_trans hkey (hother name hlater)
    · next hkey =>
      split
      · next heq =>
        exact List.pairwise_cons.2 ⟨fun name hname => heq ▸ hother name hname, hrest⟩
      · next hne =>
        refine List.pairwise_cons.2 ⟨?_, ih hrest⟩
        intro name hname
        rcases names_insertSorted hname with rfl | hlater
        · grind
        · exact hother name hlater

/-- What an object is made of, once its keys ascend. -/
def sortedMembers (members : Members Json) : Members Json :=
  members.foldl (fun done member => insertSorted member.1 member.2 done) []

theorem sorted_eq (members : Members Json) : sorted members = object (sortedMembers members) :=
  rfl

theorem ascending_sortedMembers (members : Members Json) : Ascending (sortedMembers members) := by
  induction members using List.reverseRecOn with
  | nil => exact List.Pairwise.nil
  | append_singleton members member ih =>
    rw [sortedMembers, List.foldl_concat]
    exact ascending_insertSorted ih member.1 member.2

/-- Sorting keeps of each key what insertion keeps of it. -/
theorem get?_sortedMembers (name : String) (members : Members Json) :
    Members.get? name (sortedMembers members) = Members.get? name (Members.ofList members) := by
  induction members using List.reverseRecOn with
  | nil => rfl
  | append_singleton members member ih =>
    rw [sortedMembers, List.foldl_concat, get?_insertSorted, Members.ofList_concat,
      Members.get?_insert, ← ih, sortedMembers]

/-- The order in which distinct keys are given does not matter. -/
theorem sortedMembers_perm {members members' : Members Json} (h : members.Perm members')
    (hdistinct : (Members.names members).Nodup) :
    sortedMembers members = sortedMembers members' := by
  refine h.foldl_eq' ?_ []
  intro one hone other hother done
  by_cases hkey : one.1 = other.1
  · have hsame : one = other := List.inj_on_of_nodup_map hdistinct hone hother hkey
    rw [hsame]
  · exact insertSorted_comm (Ne.symm hkey) other.2 one.2 done

/-! ### Paths -/

/-- What one step into a value leads to: a key of an object, or an index of an array. -/
def follow? : Json → PathStep → Option Json
  | object members, .member name => Members.get? name members
  | array items, .item position => items[position]?
  | _, _ => none

/-- Neither an array nor an object. -/
def IsLeaf : Json → Prop
  | array _ => False
  | object _ => False
  | _ => True

theorem IsLeaf.follow? {value : Json} (h : value.IsLeaf) (step : PathStep) :
    value.follow? step = none := by
  cases value with
  | array items => exact h.elim
  | object members => exact h.elim
  | _ => rfl

/-- What a path into a value leads to. -/
def at? : List PathStep → Json → Option Json
  | [], value => some value
  | step :: path, value => (value.follow? step).bind (at? path)

end Json

namespace Node

/-- What one step into a node leads to: a name in a struct, or an index in a sequence. -/
def follow? (node : Node) : PathStep → Option Node
  | .member name => node.get? name
  | .item position => node.items[position]?

/-- What a path into a node leads to. -/
def at? : List PathStep → Node → Option Node
  | [], node => some node
  | step :: path, node => (node.follow? step).bind (at? path)

theorem Everywhere.follow? {P : Node → Prop} {n part : Node} {step : PathStep}
    (h : n.Everywhere P) (hpart : n.follow? step = some part) : part.Everywhere P := by
  cases step with
  | member name => exact h.member hpart
  | item position => exact h.item part (List.mem_of_getElem? hpart)

/-! ### One step, in a node and in its JSON form -/

theorem names_membersToJson (members : Members Node) :
    Members.names (membersToJson members) = Members.names members := by
  rw [membersToJson_eq_map, Members.names, List.map_map]
  rfl

theorem get?_membersToJson (name : String) (members : Members Node) :
    Members.get? name (membersToJson members) = (Members.get? name members).map toJson := by
  induction members with
  | nil => rfl
  | cons member rest ih =>
    obtain ⟨key, child⟩ := member
    rw [membersToJson, Members.get?, Members.get?, ih]
    split <;> rfl

theorem get?_sortedMembers_of_distinct {members : Members Node}
    (h : (Members.names members).Nodup) (name : String) :
    Members.get? name (Json.sortedMembers (membersToJson members)) =
      (Members.get? name members).map toJson := by
  have hjson : (Members.names (membersToJson members)).Nodup := by
    rw [names_membersToJson]
    exact h
  rw [Json.get?_sortedMembers, Members.ofList_of_nodup hjson, get?_membersToJson]

theorem isLeaf_toJson_value (v : ScalarValue) : v.toJson.IsLeaf := by
  cases v with
  | double x =>
    rw [ScalarValue.toJson]
    split <;> trivial
  | _ => trivial

theorem follow?_toJson {n : Node} (h : n.Distinct) (step : PathStep) :
    n.toJson.follow? step = (n.follow? step).map toJson := by
  cases n with
  | scalar s =>
    rw [toJson, (isLeaf_toJson_value s.value).follow?]
    cases step <;> rfl
  | array items =>
    rw [toJson, itemsToJson_eq_map]
    cases step with
    | member name => rfl
    | item position => exact List.getElem?_map
  | params items =>
    rw [toJson, itemsToJson_eq_map]
    cases step with
    | member name => rfl
    | item position => exact List.getElem?_map
  | struct members =>
    rw [toJson, Json.sorted_eq]
    cases step with
    | member name => exact get?_sortedMembers_of_distinct h name
    | item position => rfl

/-! ### Whole paths -/

/-- **A path leads to the JSON form of what it leads to in the node**, and nowhere if it leads
    nowhere in the node. -/
theorem at?_toJson {n : Node} (h : n.Everywhere Distinct) (path : List PathStep) :
    n.toJson.at? path = (n.at? path).map toJson := by
  induction path generalizing n with
  | nil => rfl
  | cons step path ih =>
    rw [Json.at?, at?, follow?_toJson h.here]
    cases hpart : n.follow? step with
    | none => rfl
    | some part => exact ih (h.follow? hpart)

end Node

/-! ### Numbers that are none -/

/-- Only a numeral without a number becomes null: a double that is read is finite. -/
theorem Scalar.toJson_value_eq_null_iff (s : Scalar) :
    s.value.toJson = .null ↔
      (s.kind = .integer ∨ s.kind = .double) ∧ s.value = .notANumber s.tag s.raw := by
  obtain ⟨kind, raw⟩ := s
  cases kind with
  | integer =>
    rw [value]
    cases Integer.parse? raw <;> simp [ScalarValue.toJson]
  | double =>
    rw [value]
    cases hread : Double.parse? raw with
    | none => simp [ScalarValue.toJson]
    | some x => simp [ScalarValue.toJson, Double.isFinite_of_parse? hread]
  | _ => simp [value, ScalarValue.toJson]

namespace Node

theorem toJson_eq_null_iff (n : Node) :
    n.toJson = .null ↔ ∃ s, n = scalar s ∧
      (s.kind = .integer ∨ s.kind = .double) ∧ s.value = .notANumber s.tag s.raw := by
  cases n with
  | scalar s =>
    rw [toJson, Scalar.toJson_value_eq_null_iff]
    simp
  | _ => simp [toJson, Json.sorted]

theorem ascending_of_toJson {n : Node} {members : Members Json} (h : n.toJson = .object members) :
    Json.Ascending members := by
  cases n with
  | scalar s =>
    have hleaf := isLeaf_toJson_value s.value
    rw [toJson] at h
    rw [h] at hleaf
    exact hleaf.elim
  | struct entries =>
    rw [toJson, Json.sorted_eq] at h
    cases h
    exact Json.ascending_sortedMembers _
  | array items => cases h
  | params items => cases h

/-! ### Structs in another order -/

mutual

/-- Nodes that differ only in the order of the members of structs, at any depth. -/
inductive Reordered : Node → Node → Prop where
  | scalar (s : Scalar) : Reordered (scalar s) (scalar s)
  | array {items items' : List Node} (h : ReorderedItems items items') :
      Reordered (array items) (array items')
  | params {items items' : List Node} (h : ReorderedItems items items') :
      Reordered (params items) (params items')
  | struct {members shuffled members' : Members Node} (hperm : members.Perm shuffled)
      (h : ReorderedMembers shuffled members') : Reordered (struct members) (struct members')

/-- Sequences whose items differ so, in the same order. -/
inductive ReorderedItems : List Node → List Node → Prop where
  | nil : ReorderedItems [] []
  | cons {item item' : Node} {rest rest' : List Node} (hitem : Reordered item item')
      (h : ReorderedItems rest rest') : ReorderedItems (item :: rest) (item' :: rest')

/-- Members of the same names, in the same order, whose values differ so. -/
inductive ReorderedMembers : Members Node → Members Node → Prop where
  | nil : ReorderedMembers [] []
  | cons {name : String} {child child' : Node} {rest rest' : Members Node}
      (hchild : Reordered child child') (h : ReorderedMembers rest rest') :
      ReorderedMembers ((name, child) :: rest) ((name, child') :: rest')

end

mutual

/-- **The order of the members is not in the JSON form.** -/
theorem toJson_reordered {n n' : Node} (hdistinct : n.Everywhere Distinct) :
    Reordered n n' → n.toJson = n'.toJson
  | .scalar s => rfl
  | .array h => by
    rw [toJson, toJson, itemsToJson_reordered hdistinct.2 h]
  | .params h => by
    rw [toJson, toJson, itemsToJson_reordered hdistinct.2 h]
  | @Reordered.struct members shuffled members' hperm h => by
    have hshuffled : EveryMember Distinct shuffled := by
      rw [everyMember_iff]
      intro entry hentry
      exact everyMember_iff.1 hdistinct.2 entry (hperm.mem_iff.2 hentry)
    have hnames : (Members.names (membersToJson members)).Nodup := by
      rw [names_membersToJson]
      exact hdistinct.1
    have hjson : (membersToJson members).Perm (membersToJson shuffled) := by
      rw [membersToJson_eq_map, membersToJson_eq_map]
      exact hperm.map _
    rw [toJson, toJson, Json.sorted_eq, Json.sorted_eq, Json.sortedMembers_perm hjson hnames,
      membersToJson_reordered hshuffled h]

theorem itemsToJson_reordered {items items' : List Node} (hdistinct : EveryItem Distinct items) :
    ReorderedItems items items' → itemsToJson items = itemsToJson items'
  | .nil => rfl
  | .cons hitem h => by
    rw [itemsToJson, itemsToJson, toJson_reordered hdistinct.1 hitem,
      itemsToJson_reordered hdistinct.2 h]

theorem membersToJson_reordered {members members' : Members Node}
    (hdistinct : EveryMember Distinct members) :
    ReorderedMembers members members' → membersToJson members = membersToJson members'
  | .nil => rfl
  | .cons hchild h => by
    rw [membersToJson, membersToJson, toJson_reordered hdistinct.1 hchild,
      membersToJson_reordered hdistinct.2 h]

end

/-! ### The JSON form -/

/-- **The JSON form of a node is the node at every path.**  If the members of each struct have
    distinct names, a path leads somewhere in the JSON form exactly if it does in the node, and
    there to the JSON form of what it leads to in the node; the keys of every object ascend, so
    each is there once.  Null stands for the integers and the doubles whose text is not a number,
    and for nothing else.  The order of members, at any depth, does not show in the text. -/
theorem parts_of_toJson (n : Node) (hdistinct : n.Everywhere Distinct) :
    (∀ path, n.toJson.at? path = (n.at? path).map toJson) ∧
    (∀ path members, n.toJson.at? path = some (.object members) → Json.Ascending members) ∧
    (∀ path, n.toJson.at? path = some .null ↔ ∃ s, n.at? path = some (scalar s) ∧
      (s.kind = .integer ∨ s.kind = .double) ∧ s.value = .notANumber s.tag s.raw) ∧
    (∀ n', Reordered n n' → n.toJson.render = n'.toJson.render) := by
  have hat := at?_toJson hdistinct
  refine ⟨hat, ?ascending, ?null, ?order⟩
  case ascending =>
    intro path members hmembers
    rw [hat, Option.map_eq_some_iff] at hmembers
    obtain ⟨part, -, hpart⟩ := hmembers
    exact ascending_of_toJson hpart
  case null =>
    intro path
    rw [hat, Option.map_eq_some_iff]
    constructor
    · rintro ⟨part, hpart, hnull⟩
      obtain ⟨s, rfl, hs⟩ := (toJson_eq_null_iff part).1 hnull
      exact ⟨s, hpart, hs⟩
    · rintro ⟨s, hpart, hs⟩
      exact ⟨scalar s, hpart, (toJson_eq_null_iff _).2 ⟨s, rfl, hs⟩⟩
  case order =>
    intro n' h
    rw [toJson_reordered hdistinct h]

/-- A struct with an array in it, whose members do not ascend; the last item is no number. -/
def unordered : Node :=
  struct [("b", array [integer 7, scalar ⟨.double, "1e400"⟩]), ("a", params [])]

/-- The same members in the order of their names. -/
def ordered : Node :=
  struct [("a", params []), ("b", array [integer 7, scalar ⟨.double, "1e400"⟩])]

theorem parts_of_toJson_unordered :
    unordered.Everywhere Distinct ∧
    unordered.toJson.at? [.member "b", .item 0] = some (.integer 7) ∧
    unordered.toJson.at? [.member "b", .item 1] = some .null ∧
    (Reordered unordered ordered ∧ unordered.toJson.render = ordered.toJson.render) := by
  have hdistinct : unordered.Everywhere Distinct := by
    simp [unordered, Everywhere, EveryMember, EveryItem, Distinct, Members.names, integer]
  have hreordered : Reordered unordered ordered := by
    refine .struct (List.Perm.swap _ _ _) (.cons (.params .nil) (.cons (.array ?_) .nil))
    exact .cons (.scalar _) (.cons (.scalar _) .nil)
  obtain ⟨hpaths, -, hnull, horder⟩ := parts_of_toJson unordered hdistinct
  refine ⟨hdistinct, ?_, ?_, hreordered, horder _ hreordered⟩
  · rw [hpaths]
    rfl
  · rw [hnull]
    exact ⟨⟨.double, "1e400"⟩, rfl, Or.inr rfl, by decide⟩

end Node

end XmlRpc
