/-
  XmlRpc/Proofs/Runs.lean
  =======================
  **What stays true of nodes however they are made and changed.**

  A run is any sequence of moves on a stack of nodes: steps of a script, nodes that
  parts of replies are decoded to, and nodes that are taken from the stack once more.
  After a run no struct, at any depth of any node, has two members with one name
  (`distinct_runAll`).  There is one lemma for each operation on nodes, one for each
  step and one for each move; the run is an induction on its moves.

  A step that changes a node keeps its type, and one that is refused because of this
  type names it and leaves the node as it was (`run_of_target`).
-/
import XmlRpc.Proofs.DecodedNodes
import XmlRpc.Script

namespace XmlRpc

namespace Node

/-! ### Distinct names -/

theorem distinct_scalar (s : Scalar) : (scalar s).Everywhere Distinct := by
  rw [Everywhere]
  trivial

theorem distinct_array {items : List Node} (h : ∀ item ∈ items, item.Everywhere Distinct) :
    (array items).Everywhere Distinct := by
  rw [Everywhere]
  exact ⟨trivial, everyItem_iff.2 h⟩

theorem distinct_params {items : List Node} (h : ∀ item ∈ items, item.Everywhere Distinct) :
    (params items).Everywhere Distinct := by
  rw [Everywhere]
  exact ⟨trivial, everyItem_iff.2 h⟩

theorem distinct_struct {members : List (String × Node)} (hnames : (Members.names members).Nodup)
    (h : ∀ entry ∈ members, entry.2.Everywhere Distinct) :
    (struct members).Everywhere Distinct := by
  rw [Everywhere]
  exact ⟨hnames, everyMember_iff.2 h⟩

variable {n n' child : Node}

theorem distinct_setValue {raw : String} (h : n.setValue raw = .ok n') :
    n'.Everywhere Distinct := by
  cases n with
  | scalar s =>
    cases h
    exact distinct_scalar _
  | _ => cases h

theorem distinct_addChild (hn : n.Everywhere Distinct) (hchild : child.Everywhere Distinct)
    (h : n.addChild child = .ok n') : n'.Everywhere Distinct := by
  have hitems : ∀ item ∈ n.items ++ [child], item.Everywhere Distinct := by
    intro item hitem
    rcases List.mem_append.1 hitem with hold | hnew
    · exact hn.item item hold
    · rw [List.mem_singleton.1 hnew]
      exact hchild
  cases n with
  | array items =>
    cases h
    exact distinct_array hitems
  | params items =>
    cases h
    exact distinct_params hitems
  | _ => cases h

theorem distinct_addMember {name : String} (hn : n.Everywhere Distinct)
    (hchild : child.Everywhere Distinct) (h : n.addMember name child = .ok n') :
    n'.Everywhere Distinct := by
  cases n with
  | struct members =>
    cases h
    rw [Everywhere] at hn
    refine distinct_struct (Members.nodup_names_insert hn.1 name child) fun entry hentry => ?_
    rcases Members.mem_of_mem_insert hentry with hold | hnew
    · exact everyMember_iff.1 hn.2 entry hold
    · rw [hnew]
      exact hchild
  | _ => cases h

theorem distinct_wrap (hn : n.Everywhere Distinct) (wrapping : Wrapping) :
    (wrapping.wrap n).Everywhere Distinct := by
  cases wrapping with
  | array => exact distinct_array (by simpa [Wrapping.wrap] using hn)
  | params => exact distinct_params (by simpa [Wrapping.wrap] using hn)
  | struct name => exact distinct_struct (by simp [Members.names]) (by simpa using hn)

theorem distinct_wrap_repeat (hn : n.Everywhere Distinct) (wrapping : Wrapping) (times : Nat) :
    (Nat.repeat wrapping.wrap times n).Everywhere Distinct := by
  induction times with
  | zero => exact hn
  | succ times ih => exact distinct_wrap ih wrapping

/-! ### The type of a node -/

/-- The outcome of a change that keeps the type of a node, or is refused for this type. -/
def Keeps (n : Node) : Except ValueError Node → Prop
  | .ok n' => n'.typeName = n.typeName
  | .error error => error = .invalidOperation n.typeName

theorem keeps_setValue (n : Node) (raw : String) : n.Keeps (n.setValue raw) := by
  cases n <;> rfl

theorem keeps_addChild (n child : Node) : n.Keeps (n.addChild child) := by
  cases n <;> rfl

theorem keeps_addMember (n : Node) (name : String) (child : Node) :
    n.Keeps (n.addMember name child) := by
  cases n <;> rfl

end Node

open Node (Everywhere Distinct)

/-! ### What is built -/

theorem Node.distinct_ofTag {tag raw : String} {n : Node} (h : Node.ofTag tag raw = .ok n) :
    n.Everywhere Distinct := by
  obtain ⟨s, -, rfl⟩ := Reply.ok_of_map h
  exact distinct_scalar s

theorem Node.error_of_ofTag {tag raw : String} {error : ValueError}
    (h : Node.ofTag tag raw = .error error) : error = .unknownType tag := by
  rw [Node.ofTag, Scalar.ofTag, ScalarKind.ofTag] at h
  rcases hkind : ScalarKind.ofTag? tag with _ | kind
  · rw [hkind] at h
    cases h
    rfl
  · rw [hkind] at h
    cases h

namespace Arguments

theorem distinct_ofPairs {pairs : List (String × String)} {nodes : List Node}
    (h : ofPairs pairs = .ok nodes) : ∀ n ∈ nodes, n.Everywhere Distinct := by
  induction pairs generalizing nodes with
  | nil =>
    cases h
    simp
  | cons pair rest ih =>
    rw [ofPairs] at h
    obtain ⟨first, hfirst, h⟩ := Reply.ok_of_bind h
    obtain ⟨others, hothers, h⟩ := Reply.ok_of_bind h
    cases h
    intro n hn
    rcases List.mem_cons.1 hn with rfl | hrest
    · exact Node.distinct_ofTag hfirst
    · exact ih hothers n hrest

theorem error_of_ofPairs {pairs : List (String × String)} {error : ValueError}
    (h : ofPairs pairs = .error error) : ∃ tag, error = .unknownType tag := by
  induction pairs with
  | nil => cases h
  | cons pair rest ih =>
    rw [ofPairs] at h
    rcases hfirst : Node.ofTag pair.1 pair.2 with refusal | first
    · rw [hfirst] at h
      cases h
      exact ⟨pair.1, Node.error_of_ofTag hfirst⟩
    · rw [hfirst] at h
      rcases hothers : ofPairs rest with refusal | others
      · rw [hothers] at h
        cases h
        exact ih hothers
      · rw [hothers] at h
        cases h

end Arguments

namespace Recipe

theorem distinct_build {recipe : Recipe} {n : Node} (h : recipe.build = .ok n) :
    n.Everywhere Distinct := by
  cases recipe with
  | emptyOfTag tag => exact Node.distinct_ofTag h
  | ofTag tag raw => exact Node.distinct_ofTag h
  | double x =>
    rw [build, Node.double] at h
    split at h
    · cases h
      exact Node.distinct_scalar _
    · cases h
  | array =>
    cases h
    exact Node.distinct_array (by simp)
  | struct =>
    cases h
    exact Node.distinct_struct List.nodup_nil (by simp)
  | params =>
    cases h
    exact Node.distinct_params (by simp)
  | words all =>
    obtain ⟨nodes, hnodes, rfl⟩ := Reply.ok_of_map h
    rw [Arguments.ofWords] at hnodes
    split at hnodes
    · cases hnodes
    · exact Node.distinct_params (Arguments.distinct_ofPairs hnodes)
  | pairs all =>
    obtain ⟨nodes, hnodes, rfl⟩ := Reply.ok_of_map h
    exact Node.distinct_params (Arguments.distinct_ofPairs hnodes)
  | ofWireTag tag raw | string text | integer k | boolean b =>
    cases h
    exact Node.distinct_scalar _

/-- What cannot be built is at fault itself; no node is there to refuse it. -/
theorem build_ne_invalidOperation (recipe : Recipe) (typeName : String) :
    recipe.build ≠ .error (.invalidOperation typeName) := by
  intro h
  cases recipe with
  | emptyOfTag tag => cases Node.error_of_ofTag h
  | ofTag tag raw => cases Node.error_of_ofTag h
  | double x =>
    rw [build, Node.double] at h
    split at h <;> cases h
  | words all =>
    have hrefused := Reply.error_of_map h
    rw [Arguments.ofWords] at hrefused
    split at hrefused
    · cases hrefused
    · obtain ⟨tag, htag⟩ := Arguments.error_of_ofPairs hrefused
      cases htag
  | pairs all =>
    obtain ⟨tag, htag⟩ := Arguments.error_of_ofPairs (Reply.error_of_map h)
    cases htag
  | _ => cases h

end Recipe

/-! ### Steps -/

namespace Step

variable {stack rest : List Node} {n : Node}

/-- The node that a step changes, and what lies below it. -/
def target? : Step → List Node → Option (Node × List Node)
  | setValue _, top :: rest => some (top, rest)
  | add, _ :: below :: rest => some (below, rest)
  | member _, _ :: below :: rest => some (below, rest)
  | _, _ => none

/-- A step that changes a node leaves it there, of the type it was, or as it was if this type is
    the reason to refuse the step. -/
theorem run_of_target {s : Step} (h : s.target? stack = some (n, rest)) :
    ∃ changed, n.Keeps changed ∧ s.run stack = replaceTop changed n rest := by
  cases s with
  | setValue raw =>
    obtain _ | ⟨top, rest⟩ := stack
    · cases h
    · cases h
      exact ⟨_, Node.keeps_setValue n raw, rfl⟩
  | add =>
    obtain _ | ⟨top, _ | ⟨below, rest⟩⟩ := stack
    · cases h
    · cases h
    · cases h
      exact ⟨_, Node.keeps_addChild n top, rfl⟩
  | member name =>
    obtain _ | ⟨top, _ | ⟨below, rest⟩⟩ := stack
    · cases h
    · cases h
    · cases h
      exact ⟨_, Node.keeps_addMember n name top, rfl⟩
  | _ => cases h

theorem pushFound_ne_refused (part : Option Node) (stack : List Node) (error : ValueError) :
    (pushFound part stack).1 ≠ .refused error := by
  cases part <;> nofun

/-- Only the type of the node that a step changes can be a reason of this kind. -/
theorem target_of_refused {s : Step} {typeName : String}
    (h : (s.run stack).1 = .refused (.invalidOperation typeName)) :
    ∃ n rest, s.target? stack = some (n, rest) := by
  cases s with
  | build recipe =>
    rw [run] at h
    split at h
    · cases h
    · next error hbuild =>
      cases h
      exact absurd hbuild (recipe.build_ne_invalidOperation typeName)
  | add | member name =>
    obtain _ | ⟨top, _ | ⟨below, rest⟩⟩ := stack
    · cases h
    · cases h
    · exact ⟨below, rest, rfl⟩
  | setValue raw =>
    obtain _ | ⟨top, rest⟩ := stack
    · cases h
    · exact ⟨top, rest, rfl⟩
  | get name | child index =>
    obtain _ | ⟨top, rest⟩ := stack
    · cases h
    · exact absurd h (pushFound_ne_refused _ _ _)
  | _ => obtain _ | ⟨top, rest⟩ := stack <;> cases h

theorem typeName_of_target {s : Step} (h : s.target? stack = some (n, rest)) :
    ∃ n', (s.run stack).2 = n' :: rest ∧ n'.typeName = n.typeName := by
  obtain ⟨changed, hkeeps, hrun⟩ := run_of_target h
  rw [hrun]
  cases changed with
  | ok n' => exact ⟨n', rfl, hkeeps⟩
  | error error => exact ⟨n, rfl, rfl⟩

theorem unchanged_of_refused {s : Step} {typeName : String}
    (h : (s.run stack).1 = .refused (.invalidOperation typeName)) :
    ∃ n rest, s.target? stack = some (n, rest) ∧ typeName = n.typeName ∧
      (s.run stack).2 = n :: rest := by
  obtain ⟨n, rest, htarget⟩ := target_of_refused h
  obtain ⟨changed, hkeeps, hrun⟩ := run_of_target htarget
  rw [hrun] at h ⊢
  cases changed with
  | ok n' => cases h
  | error error =>
    cases h
    exact ⟨n, rest, htarget, ValueError.invalidOperation.inj hkeeps, rfl⟩

/-! ### One step keeps names distinct -/

theorem distinct_replaceTop {changed : Except ValueError Node} (hn : n.Everywhere Distinct)
    (hrest : ∀ m ∈ rest, m.Everywhere Distinct)
    (hchanged : ∀ n', changed = .ok n' → n'.Everywhere Distinct) :
    ∀ m ∈ (replaceTop changed n rest).2, m.Everywhere Distinct := by
  cases changed with
  | ok n' => exact List.forall_mem_cons.2 ⟨hchanged n' rfl, hrest⟩
  | error error => exact List.forall_mem_cons.2 ⟨hn, hrest⟩

theorem distinct_pushFound {part : Option Node} (hstack : ∀ m ∈ stack, m.Everywhere Distinct)
    (hpart : ∀ m, part = some m → m.Everywhere Distinct) :
    ∀ m ∈ (pushFound part stack).2, m.Everywhere Distinct := by
  cases part with
  | none => exact hstack
  | some m => exact List.forall_mem_cons.2 ⟨hpart m rfl, hstack⟩

/-- **A step keeps the names in all nodes of the stack distinct.** -/
theorem distinct_run (hstack : ∀ n ∈ stack, n.Everywhere Distinct) (s : Step) :
    ∀ n ∈ (s.run stack).2, n.Everywhere Distinct := by
  cases s with
  | build recipe =>
    rw [run]
    split
    · next n hbuild => exact List.forall_mem_cons.2 ⟨Recipe.distinct_build hbuild, hstack⟩
    · exact hstack
  | add =>
    obtain _ | ⟨top, _ | ⟨below, rest⟩⟩ := stack
    · exact hstack
    · exact hstack
    · obtain ⟨htop, hbelow, hrest⟩ := (List.forall_mem_cons.1 hstack).imp_right
        List.forall_mem_cons.1
      exact distinct_replaceTop hbelow hrest fun _ => Node.distinct_addChild hbelow htop
  | member name =>
    obtain _ | ⟨top, _ | ⟨below, rest⟩⟩ := stack
    · exact hstack
    · exact hstack
    · obtain ⟨htop, hbelow, hrest⟩ := (List.forall_mem_cons.1 hstack).imp_right
        List.forall_mem_cons.1
      exact distinct_replaceTop hbelow hrest fun _ => Node.distinct_addMember hbelow htop
  | collect count =>
    obtain _ | ⟨top, rest⟩ := stack
    · exact hstack
    · refine List.forall_mem_cons.2 ⟨Node.distinct_array fun item hitem => ?_, fun n hn => ?_⟩
      · exact hstack item (List.mem_of_mem_take (List.mem_reverse.1 hitem))
      · exact hstack n (List.mem_of_mem_drop hn)
  | drop =>
    obtain _ | ⟨top, rest⟩ := stack
    · exact hstack
    · exact (List.forall_mem_cons.1 hstack).2
  | duplicate =>
    obtain _ | ⟨top, rest⟩ := stack
    · exact hstack
    · exact List.forall_mem_cons.2 ⟨hstack top List.mem_cons_self, hstack⟩
  | wrap wrapping times =>
    obtain _ | ⟨top, rest⟩ := stack
    · exact hstack
    · obtain ⟨htop, hrest⟩ := List.forall_mem_cons.1 hstack
      exact List.forall_mem_cons.2 ⟨Node.distinct_wrap_repeat htop wrapping times, hrest⟩
  | setValue raw =>
    obtain _ | ⟨top, rest⟩ := stack
    · exact hstack
    · obtain ⟨htop, hrest⟩ := List.forall_mem_cons.1 hstack
      exact distinct_replaceTop htop hrest fun _ => Node.distinct_setValue
  | get name =>
    obtain _ | ⟨top, rest⟩ := stack
    · exact hstack
    · exact distinct_pushFound hstack fun _ => (hstack top List.mem_cons_self).member
  | child index =>
    obtain _ | ⟨top, rest⟩ := stack
    · exact hstack
    · refine distinct_pushFound hstack fun m hm => ?_
      exact (hstack top List.mem_cons_self).item m (List.mem_of_getElem? hm)

end Step

/-! ### What parts of replies give -/

theorem Markup.Element.EveryName.of_forall {P : String → Prop} (h : ∀ name, P name) :
    (e : Markup.Element) → e.EveryName P
  | ⟨name, text, children⟩ =>
    .mk name text children (h name) fun child _ => EveryName.of_forall h child

namespace Reply

open Markup (Element)

/-- A part of a reply that a node can be decoded from. -/
inductive Excerpt where
  /-- The whole text. -/
  | text (body : String)
  | document (root : Element)
  /-- An element with a value in it. -/
  | value (e : Element)
  /-- An element whose name is a type. -/
  | typed (e : Element)

theorem ok_of_toOption {ε α : Type} {x : Except ε α} {a : α} (h : x.toOption = some a) :
    x = .ok a := by
  cases x with
  | error error => cases h
  | ok a' => rw [Option.some.inj h]

/-- The node that the part is decoded to, if it is. -/
def Excerpt.node? : Excerpt → Option Node
  | text body => (decode body).toOption
  | document root => (decodeDocument root).toOption
  | value e => (decodeValue e).toOption
  | typed e => (decodeTyped e).toOption

theorem Excerpt.everywhere_node? {x : Excerpt} {n : Node} (h : x.node? = some n) :
    n.Everywhere (Decoded fun _ => True) := by
  -- nothing is known of the names in an excerpt, and nothing has to be
  have hnames (e : Element) : e.EveryName fun _ => True := .of_forall (fun _ => trivial) e
  cases x with
  | text body =>
    obtain ⟨root, -, hnode⟩ := document_of_decode (ok_of_toOption h)
    exact everywhere_of_decodeDocument (hnames root) hnode
  | document root => exact everywhere_of_decodeDocument (hnames root) (ok_of_toOption h)
  | value e => exact everywhere_of_decodeValue e (hnames e) (ok_of_toOption h)
  | typed e => exact everywhere_of_decodeTyped e (hnames e) (ok_of_toOption h)

end Reply

/-! ### Runs -/

/-- One move of a run. -/
inductive Move where
  | step (s : Step)
  /-- Puts what a part of a reply is decoded to on the stack. -/
  | read (x : Reply.Excerpt)
  /-- Puts nodes from places in the stack on it once more, in any order. -/
  | copy (places : List Nat)

namespace Move

def run : Move → List Node → List Node
  | step s, stack => (s.run stack).2
  | read x, stack => x.node?.toList ++ stack
  | copy places, stack => places.filterMap (stack[·]?) ++ stack

def runAll (moves : List Move) (stack : List Node) : List Node :=
  moves.foldl (fun stack move => move.run stack) stack

variable {stack : List Node}

theorem distinct_run (hstack : ∀ n ∈ stack, n.Everywhere Distinct) (move : Move) :
    ∀ n ∈ move.run stack, n.Everywhere Distinct := by
  cases move with
  | step s => exact Step.distinct_run hstack s
  | read x =>
    refine List.forall_mem_append.2 ⟨fun n hn => ?_, hstack⟩
    exact (Reply.Excerpt.everywhere_node? (Option.mem_toList.1 hn)).imp fun _ h => h.1
  | copy places =>
    refine List.forall_mem_append.2 ⟨fun n hn => ?_, hstack⟩
    obtain ⟨place, -, hplace⟩ := List.mem_filterMap.1 hn
    exact hstack n (List.mem_of_getElem? hplace)

/-- **However long a run is, the names in all nodes of the stack are distinct.** -/
theorem distinct_runAll (hstack : ∀ n ∈ stack, n.Everywhere Distinct) (moves : List Move) :
    ∀ n ∈ runAll moves stack, n.Everywhere Distinct := by
  induction moves generalizing stack with
  | nil => exact hstack
  | cons move moves ih => exact ih (distinct_run hstack move)

/-- **The invariants of nodes.** After any run, no struct at any depth of any node has two members
    with one name. A step that changes a node keeps its type; one that is refused for a type names
    that of the node, which stays as it was. No unregistered tag in a decoded node is reserved. -/
theorem tree_invariants :
    (∀ moves : List Move, ∀ n ∈ runAll moves [], n.Everywhere Distinct) ∧
    (∀ (s : Step) (stack rest : List Node) (n : Node), s.target? stack = some (n, rest) →
      ∃ n', (s.run stack).2 = n' :: rest ∧ n'.typeName = n.typeName) ∧
    (∀ (s : Step) (stack : List Node) (typeName : String),
      (s.run stack).1 = .refused (.invalidOperation typeName) →
      ∃ n rest, s.target? stack = some (n, rest) ∧ typeName = n.typeName ∧
        (s.run stack).2 = n :: rest) ∧
    (∀ (x : Reply.Excerpt) (n : Node), x.node? = some n →
      n.Everywhere (Node.Tagged (· ∉ reservedTags))) := by
  refine ⟨fun moves => ?_, fun s stack rest n h => ?_, fun s stack typeName h => ?_,
    fun x n h => ?_⟩
  · exact distinct_runAll (by simp) moves
  · exact Step.typeName_of_target h
  · exact Step.unchanged_of_refused h
  · refine (Reply.Excerpt.everywhere_node? h).imp fun m hm => hm.2.imp ?_
    exact fun tag htag => htag.2

/-- A struct is put into itself under a name that it has; it takes no text; a string does; and a
    reply may hold a tag of its own. -/
theorem tree_invariants_nested :
    let moves := [.step (.build .struct), .step (.build (.string "x")), .step (.member "a"),
      .copy [0], .step (.member "a")]
    let nested := Node.struct [("a", .struct [("a", .string "x")])]
    runAll moves [] = [nested] ∧ nested.Everywhere Distinct ∧
    (∃ n', ((Step.setValue "y").run [.string "x", nested]).2 = n' :: [nested] ∧
      n'.typeName = "string") ∧
    (Step.setValue "y").run [nested] = (.refused (.invalidOperation "struct"), [nested]) ∧
    (Node.scalar ⟨.unregistered "nil", ""⟩).Everywhere (Node.Tagged (· ∉ reservedTags)) := by
  intro moves nested
  have hrun : runAll moves [] = [nested] := by decide +kernel
  obtain ⟨hdistinct, htype, hrefused, htagged⟩ := tree_invariants
  refine ⟨hrun, ?_, htype _ _ _ (.string "x") rfl, ?_, htagged (.typed ⟨"nil", "", []⟩) _ ?_⟩
  · exact hdistinct moves nested (by rw [hrun]; exact List.mem_singleton_self nested)
  · obtain ⟨n, rest, htarget, -, hstack⟩ := hrefused (.setValue "y") [nested] "struct" rfl
    cases htarget
    exact Prod.ext rfl hstack
  · decide +kernel

end Move

end XmlRpc
