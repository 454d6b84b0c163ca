/-
  XmlRpc/Node/Equality.lean
  =========================
  **Nodes are compared by their structure.**

  Two nodes are equal when they have the same shape, kinds and texts, with
  members in the same order. The comparison walks both trees at once, and the
  statement `same_iff` says that it decides equality.
-/
import XmlRpc.Node

namespace XmlRpc.Node

mutual

/-- Whether two nodes have the same structure. -/
def same : Node → Node → Bool
  | scalar a, scalar b => a = b
  | array a, array b => sameItems a b
  | struct a, struct b => sameMembers a b
  | params a, params b => sameItems a b
  | _, _ => false

/-- Whether two sequences have the same structure. -/
def sameItems : List Node → List Node → Bool
  | [], [] => true
  | a :: as, b :: bs => same a b && sameItems as bs
  | _, _ => false

/-- Whether two lists of members have the same names and structure, in the same order. -/
def sameMembers : List (String × Node) → List (String × Node) → Bool
  | [], [] => true
  | (nameA, a) :: as, (nameB, b) :: bs => nameA = nameB && same a b && sameMembers as bs
  | _, _ => false

end

mutual

theorem same_iff (a b : Node) : same a b = true ↔ a = b := by
  cases a <;> cases b <;> simp [same, sameItems_iff, sameMembers_iff]

theorem sameItems_iff (as bs : List Node) : sameItems as bs = true ↔ as = bs := by
  cases as <;> cases bs <;> simp [sameItems, same_iff, sameItems_iff]

theorem sameMembers_iff (as bs : List (String × Node)) : sameMembers as bs = true ↔ as = bs := by
  cases as with
  | nil => cases bs <;> simp [sameMembers]
  | cons a as =>
    obtain ⟨nameA, a⟩ := a
    cases bs with
    | nil => simp [sameMembers]
    | cons b bs =>
      obtain ⟨nameB, b⟩ := b
      simp [sameMembers, same_iff, sameMembers_iff, and_assoc]

end

instance : DecidableEq Node :=
  fun a b => decidable_of_iff (same a b = true) (same_iff a b)

end XmlRpc.Node
