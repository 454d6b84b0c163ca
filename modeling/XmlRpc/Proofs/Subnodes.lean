/-
  XmlRpc/Proofs/Subnodes.lean
  ===========================
  **What holds at every place in a node.**

  Conditions on a node are mostly about one place at a time: the names of one
  struct, the tag of one scalar, the items of one array.  `Everywhere` carries such
  a condition to the node and to everything in it.  The three that matter for
  reading a node back are `Distinct`, `Tagged` and `NoBareValue`.

  `size` is how many nodes there are, and `height` how many elements the written
  form of a node nests.
-/
import XmlRpc.Node

namespace XmlRpc

namespace Members

variable {α : Type}

/-! ### Members with distinct names -/

theorem insert_of_not_mem {name : String} {members : Members α} (h : name ∉ names members)
    (value : α) : insert name value members = members ++ [(name, value)] := by
  induction members with
  | nil => rfl
  | cons entry rest ih =>
    obtain ⟨key, old⟩ := entry
    rw [names, List.map_cons, List.mem_cons, not_or] at h
    rw [insert, if_neg fun heq => h.1 heq.symm, ih h.2]
    rfl

theorem foldl_insert_of_nodup {members entries : Members α}
    (h : (names (members ++ entries)).Nodup) :
    entries.foldl (fun members entry => insert entry.1 entry.2 members) members =
      members ++ entries := by
  induction entries generalizing members with
  | nil => simp
  | cons entry entries ih =>
    have hnot : entry.1 ∉ names members := by
      rw [names, List.map_append, List.map_cons] at h
      intro hmem
      exact (List.nodup_append.1 h).2.2 _ hmem _ List.mem_cons_self rfl
    rw [List.foldl_cons, insert_of_not_mem hnot, ih (by simpa using h)]
    simp

/-- Members with distinct names are kept as they are mentioned. -/
theorem ofList_of_nodup {entries : Members α} (h : (names entries).Nodup) :
    ofList entries = entries :=
  foldl_insert_of_nodup h

theorem foldl_insert_induction {motive : Members α → Prop} {members : Members α}
    (entries : List (String × α)) (start : motive members)
    (step : ∀ members name value, motive members → (name, value) ∈ entries →
      motive (insert name value members)) :
    motive (entries.foldl (fun members entry => insert entry.1 entry.2 members) members) := by
  induction entries generalizing members with
  | nil => exact start
  | cons entry entries ih =>
    rw [List.foldl_cons]
    refine ih (step members entry.1 entry.2 start List.mem_cons_self) ?_
    intro members name value hmembers hmem
    exact step members name value hmembers (List.mem_cons_of_mem _ hmem)

/-- What a struct holds has distinct names, in whatever order it was mentioned. -/
theorem nodup_ofList (entries : List (String × α)) : (names (ofList entries)).Nodup := by
  refine foldl_insert_induction (motive := fun members => (names members).Nodup) entries ?_ ?_
  · exact List.nodup_nil
  · intro members name value hmembers _
    exact nodup_names_insert hmembers name value

theorem mem_of_mem_insert {name : String} {value : α} {members : Members α} {entry : String × α}
    (h : entry ∈ insert name value members) : entry ∈ members ∨ entry.2 = value := by
  induction members with
  | nil =>
    rw [insert, List.mem_singleton] at h
    exact Or.inr (by rw [h])
  | cons first rest ih =>
    obtain ⟨key, old⟩ := first
    rw [insert] at h
    split at h
    · rcases List.mem_cons.1 h with rfl | hrest
      · exact Or.inr rfl
      · exact Or.inl (List.mem_cons_of_mem _ hrest)
    · rcases List.mem_cons.1 h with rfl | hrest
      · exact Or.inl List.mem_cons_self
      · exact (ih hrest).imp_left (List.mem_cons_of_mem _)

/-- Every value of a struct is one that was mentioned. -/
theorem value_of_mem_ofList {entries : List (String × α)} {entry : String × α}
    (h : entry ∈ ofList entries) : ∃ mentioned ∈ entries, entry.2 = mentioned.2 := by
  revert h
  refine foldl_insert_induction
    (motive := fun members => entry ∈ members → ∃ mentioned ∈ entries, entry.2 = mentioned.2)
    entries ?_ ?_
  · intro h
    cases h
  · intro members name value hmembers hmem h
    rcases mem_of_mem_insert h with hold | hnew
    · exact hmembers hold
    · exact ⟨(name, value), hmem, hnew⟩

theorem mem_of_get? {name : String} {value : α} {members : Members α}
    (h : get? name members = some value) : (name, value) ∈ members := by
  induction members with
  | nil => cases h
  | cons entry rest ih =>
    obtain ⟨key, old⟩ := entry
    rw [get?] at h
    split at h
    · next hkey =>
      cases h
      rw [hkey]
      exact List.mem_cons_self
    · exact List.mem_cons_of_mem _ (ih h)

end Members

namespace Node

/-! ### Everywhere in a node -/

mutual

/-- A condition on a node, asked of the node and of every node in it. -/
def Everywhere (P : Node → Prop) : Node → Prop
  | scalar s => P (scalar s)
  | array items => P (array items) ∧ EveryItem P items
  | struct members => P (struct members) ∧ EveryMember P members
  | params items => P (params items) ∧ EveryItem P items

def EveryItem (P : Node → Prop) : List Node → Prop
  | [] => True
  | item :: rest => Everywhere P item ∧ EveryItem P rest

def EveryMember (P : Node → Prop) : List (String × Node) → Prop
  | [] => True
  | (_, child) :: rest => Everywhere P child ∧ EveryMember P rest

end

variable {P Q R : Node → Prop}

theorem everyItem_iff {items : List Node} :
    EveryItem P items ↔ ∀ item ∈ items, item.Everywhere P := by
  induction items with
  | nil => simp [EveryItem]
  | cons item rest ih =>
    rw [EveryItem, ih]
    simp

theorem everyMember_iff {members : List (String × Node)} :
    EveryMember P members ↔ ∀ entry ∈ members, entry.2.Everywhere P := by
  induction members with
  | nil => simp [EveryMember]
  | cons entry rest ih =>
    obtain ⟨name, child⟩ := entry
    rw [EveryMember, ih]
    simp

mutual

theorem Everywhere.combine (h : ∀ n, P n → Q n → R n) (n : Node) (hP : n.Everywhere P)
    (hQ : n.Everywhere Q) : n.Everywhere R := by
  cases n with
  | scalar s => exact h _ hP hQ
  | array items =>
    rw [Everywhere] at hP hQ ⊢
    exact ⟨h _ hP.1 hQ.1, EveryItem.combine h items hP.2 hQ.2⟩
  | struct members =>
    rw [Everywhere] at hP hQ ⊢
    exact ⟨h _ hP.1 hQ.1, EveryMember.combine h members hP.2 hQ.2⟩
  | params items =>
    rw [Everywhere] at hP hQ ⊢
    exact ⟨h _ hP.1 hQ.1, EveryItem.combine h items hP.2 hQ.2⟩

theorem EveryItem.combine (h : ∀ n, P n → Q n → R n) (items : List Node)
    (hP : EveryItem P items) (hQ : EveryItem Q items) : EveryItem R items := by
  cases items with
  | nil => trivial
  | cons item rest =>
    rw [EveryItem] at hP hQ ⊢
    exact ⟨Everywhere.combine h item hP.1 hQ.1, EveryItem.combine h rest hP.2 hQ.2⟩

theorem EveryMember.combine (h : ∀ n, P n → Q n → R n) (members : List (String × Node))
    (hP : EveryMember P members) (hQ : EveryMember Q members) : EveryMember R members := by
  cases members with
  | nil => trivial
  | cons entry rest =>
    obtain ⟨name, child⟩ := entry
    rw [EveryMember] at hP hQ ⊢
    exact ⟨Everywhere.combine h child hP.1 hQ.1, EveryMember.combine h rest hP.2 hQ.2⟩

end

theorem Everywhere.imp (h : ∀ n, P n → Q n) {n : Node} (hn : n.Everywhere P) :
    n.Everywhere Q :=
  Everywhere.combine (fun n hP _ => h n hP) n hn hn

theorem Everywhere.here {n : Node} (h : n.Everywhere P) : P n := by
  cases n with
  | scalar s => exact h
  | array items => exact h.1
  | struct members => exact h.1
  | params items => exact h.1

theorem Everywhere.item {n : Node} (h : n.Everywhere P) :
    ∀ item ∈ n.items, item.Everywhere P := by
  cases n with
  | array items =>
    rw [Everywhere] at h
    exact everyItem_iff.1 h.2
  | params items =>
    rw [Everywhere] at h
    exact everyItem_iff.1 h.2
  | _ => simp [items]

theorem Everywhere.member {n child : Node} {name : String} (h : n.Everywhere P)
    (hget : n.get? name = some child) : child.Everywhere P := by
  cases n with
  | struct members =>
    rw [Everywhere] at h
    exact everyMember_iff.1 h.2 _ (Members.mem_of_get? hget)
  | _ => cases hget

/-! ### The conditions for being read back -/

/-- The members of a struct have distinct names. -/
def Distinct : Node → Prop
  | struct members => (Members.names members).Nodup
  | _ => True

/-- The tag of a scalar is of a class, unless it is one that names a kind. -/
def Tagged (P : String → Prop) : Node → Prop
  | scalar s => ∀ tag, s.kind = .unregistered tag → P tag
  | _ => True

/-- No item of an array is a scalar tagged `value`: in an entry, a `value` is looked through. -/
def NoBareValue : Node → Prop
  | array items => ∀ item ∈ items, item.typeName ≠ "value"
  | _ => True

theorem Tagged.imp {P Q : String → Prop} (h : ∀ tag, P tag → Q tag) {n : Node}
    (hn : n.Tagged P) : n.Tagged Q := by
  cases n with
  | scalar s =>
    intro tag htag
    exact h tag (hn tag htag)
  | _ => trivial

/-! ### Size and height -/

mutual

/-- How many nodes a node is made of, itself included. -/
def size : Node → Nat
  | scalar _ => 1
  | array items => itemsSize items + 1
  | struct members => membersSize members + 1
  | params items => itemsSize items + 1

def itemsSize : List Node → Nat
  | [] => 0
  | item :: rest => size item + itemsSize rest

def membersSize : List (String × Node) → Nat
  | [] => 0
  | (_, child) :: rest => size child + membersSize rest

end

mutual

/-- How many elements the written form of a node nests. -/
def height : Node → Nat
  | scalar _ => 1
  | array items => if items.isEmpty then 2 else 3 + itemsHeight items
  | struct members => if members.isEmpty then 1 else 3 + membersHeight members
  | params items => if items.isEmpty then 1 else 3 + itemsHeight items

/-- The greatest height among nodes. -/
def itemsHeight : List Node → Nat
  | [] => 0
  | item :: rest => max (height item) (itemsHeight rest)

/-- The greatest height among the values of members. -/
def membersHeight : List (String × Node) → Nat
  | [] => 0
  | (_, child) :: rest => max (height child) (membersHeight rest)

end

theorem height_pos (n : Node) : 0 < n.height := by
  cases n with
  | scalar s =>
    rw [height]
    exact Nat.one_pos
  | array items =>
    rw [height]
    split <;> omega
  | struct members =>
    rw [height]
    split <;> omega
  | params items =>
    rw [height]
    split <;> omega

end Node

end XmlRpc
