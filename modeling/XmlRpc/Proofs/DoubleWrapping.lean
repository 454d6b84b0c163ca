/-
  XmlRpc/Proofs/DoubleWrapping.lean
  =================================
  **An item in one more `value` is the same item.**

  Some writers put every item of an array into two `value` elements, and some do so for
  a few.  `Rewrapped` says that of two trees the second has any choice of the items of
  the first in one more `value`, at any depth, in arrays that are read and in elements
  that merely are called so.  Both are decoded alike (`decode_rewrapped`).

  Which elements are items depends on where they stand (`Place`), and only an entry of a
  sequence is ever looked through.  So the induction, with one lemma for each function of
  the decoder, carries along where its elements may stand: what is read as a value, a
  typed element or a member never stands where an item does.
-/
import XmlRpc.Reply.Value

namespace XmlRpc.Reply

open Markup (Element)

/-! ### Items in one more `value` -/

/-- Where an element stands, as far as it matters for being an item. -/
inductive Place where
  | inArray
  /-- In a `data` of an array. -/
  | inData
  | elsewhere
deriving DecidableEq

/-- Where the children of an element stand. -/
def Place.below (place : Place) (name : String) : Place :=
  if name = "array" then inArray
  else if name = "data" ∧ place = inArray then inData
  else elsewhere

/-- A `value` that holds something, but no `value` before all else. -/
structure Wrappable (item : Element) : Prop where
  name : item.name = "value"
  content : item.hasContent = true
  first : ∀ inner, item.firstChild? = some inner → inner.name ≠ "value"

mutual

/-- The second element is the first with some of the items in it in one more `value`. -/
inductive Rewrapped : Place → Element → Element → Prop where
  | kept {place : Place} {name text : String} {children children' : List Element}
      (h : RewrappedAll (place.below name) children children') :
      Rewrapped place ⟨name, text, children⟩ ⟨name, text, children'⟩
  /-- The item is put into one more `value`.  Items in it may be too, but not itself once more. -/
  | wrapped {item item' : Element} (gap : String) (hitem : Wrappable item)
      (h : Rewrapped .elsewhere item item') : Rewrapped .inData item ⟨"value", gap, [item']⟩

inductive RewrappedAll : Place → List Element → List Element → Prop where
  | nil {place : Place} : RewrappedAll place [] []
  | cons {place : Place} {child child' : Element} {rest rest' : List Element}
      (hchild : Rewrapped place child child') (h : RewrappedAll place rest rest') :
      RewrappedAll place (child :: rest) (child' :: rest')

end

variable {place : Place} {e e' : Element} {children children' : List Element}

theorem Rewrapped.name_eq (h : Rewrapped place e e') : e'.name = e.name := by
  cases h with
  | kept h => rfl
  | wrapped gap hitem h => exact hitem.name.symm

/-- Only in a `data` can an element be in one more `value`. -/
theorem Rewrapped.text_eq (h : Rewrapped place e e') (hplace : place ≠ .inData) :
    e'.text = e.text := by
  cases h with
  | kept h => rfl
  | wrapped gap hitem h => exact (hplace rfl).elim

theorem RewrappedAll.memberName_eq (h : RewrappedAll place children children')
    (hplace : place ≠ .inData) : memberName children' = memberName children := by
  induction children generalizing children' with
  | nil =>
    cases h
    rfl
  | cons child rest ih =>
    cases h with
    | cons hchild h =>
      rw [memberName_cons, memberName_cons, hchild.name_eq, hchild.text_eq hplace, ih h]

/-! ### Where elements stand -/

theorem Place.below_of_value {name : String} (h : name = "value") :
    place.below name ≠ .inData := by
  subst h
  simp [below]

theorem Place.below_ne_inData {name : String} (h : place ≠ .inArray) :
    place.below name ≠ .inData := by
  rw [below]
  split
  · nofun
  · rw [if_neg fun hdata => h hdata.2]
    nofun

/-- What is looked through is not there for an item that may be wrapped. -/
theorem decodeEntry_of_wrappable {item : Element} (h : Wrappable item) :
    decodeEntry item = decodeValue item := by
  obtain ⟨name, text, children⟩ := item
  cases children with
  | nil =>
    have htext : ¬text = "" := by simpa [Element.hasContent] using h.content
    rw [decodeEntry, decodeValue, if_neg htext, if_neg htext]
  | cons inner rest =>
    have hinner : ¬inner.name = "value" := h.first inner rfl
    rw [decodeEntry, decodeValue, if_neg hinner]

/-! ### Decoding -/

mutual

theorem decodeValue_rewrapped {place : Place} {e e' : Element} (hplace : place ≠ .inData)
    (hbelow : place.below e.name ≠ .inData) :
    Rewrapped place e e' → decodeValue e' = decodeValue e
  | .kept .nil => rfl
  | .kept (.cons hchild h) => by
    rw [decodeValue, decodeValue, decodeTyped_rewrapped hbelow hchild]
  | .wrapped gap hitem h => (hplace rfl).elim

theorem decodeTyped_rewrapped {place : Place} {e e' : Element} (hplace : place ≠ .inData) :
    Rewrapped place e e' → decodeTyped e' = decodeTyped e
  | @Rewrapped.kept _ name text children children' h => by
    rw [decodeTyped, decodeTyped]
    by_cases harray : name = "array"
    · have hbelow : place.below name = .inArray := if_pos harray
      rw [if_pos harray, if_pos harray, decodeData_rewrapped hbelow h]
    · by_cases hdata : name = "data"
      · rw [hdata]
        rfl
      · have hbelow : place.below name = .elsewhere := by
          rw [Place.below, if_neg harray, if_neg fun h => hdata h.1]
        have hentries : place.below name ≠ .inArray := by
          rw [hbelow]
          decide
        rw [if_neg harray, if_neg harray, decodeEntries_rewrapped hentries h,
          decodeMembers_rewrapped hbelow h]
  | .wrapped gap hitem h => (hplace rfl).elim

theorem decodeData_rewrapped {place : Place} {parts parts' : List Element}
    (hplace : place = .inArray) :
    RewrappedAll place parts parts' → decodeData parts' = decodeData parts
  | .nil => rfl
  | .cons (@Rewrapped.kept _ name _ entries entries' hentries) h => by
    rw [decodeData, decodeData, decodeData_rewrapped hplace h]
    by_cases hdata : name = "data"
    · have hbelow : place.below name ≠ .inArray := by
        rw [hdata, hplace]
        decide
      rw [decodeEntries_rewrapped hbelow hentries]
    · rw [if_neg hdata, if_neg hdata]
  | .cons (.wrapped gap hitem hentry) h => nomatch hplace

theorem decodeEntries_rewrapped {place : Place} {entries entries' : List Element}
    (hplace : place ≠ .inArray) :
    RewrappedAll place entries entries' → decodeEntries entries' = decodeEntries entries
  | .nil => rfl
  | .cons hentry h => by
    rw [decodeEntries, decodeEntries, decodeEntry_rewrapped hplace hentry,
      decodeEntries_rewrapped hplace h]

theorem decodeEntry_rewrapped {place : Place} {e e' : Element} (hplace : place ≠ .inArray) :
    Rewrapped place e e' → decodeEntry e' = decodeEntry e
  | .kept .nil => rfl
  | .kept (@RewrappedAll.cons _ inner _ _ _ hinner h) => by
    rw [decodeEntry, decodeEntry, hinner.name_eq]
    by_cases hvalue : inner.name = "value"
    · rw [if_pos hvalue, if_pos hvalue]
      exact decodeValue_rewrapped (Place.below_ne_inData hplace)
        (Place.below_of_value hvalue) hinner
    · rw [if_neg hvalue, if_neg hvalue]
      exact decodeTyped_rewrapped (Place.below_ne_inData hplace) hinner
  | .wrapped gap hitem h => by
    rw [decodeEntry, if_pos (h.name_eq.trans hitem.name), decodeEntry_of_wrappable hitem]
    exact decodeValue_rewrapped (by decide) (Place.below_of_value hitem.name) h

theorem decodeMembers_rewrapped {place : Place} {members members' : List Element}
    (hplace : place = .elsewhere) :
    RewrappedAll place members members' → decodeMembers members' = decodeMembers members
  | .nil => rfl
  | .cons (@Rewrapped.kept _ name _ _ _ hparts) h => by
    have hbelow : place.below name ≠ .inData := by
      apply Place.below_ne_inData
      rw [hplace]
      decide
    rw [decodeMembers, decodeMembers, hparts.memberName_eq hbelow,
      decodeMemberValue_rewrapped _ hbelow hparts, decodeMembers_rewrapped hplace h]
  | .cons (.wrapped gap hitem hmember) h => nomatch hplace

theorem decodeMemberValue_rewrapped {place : Place} {parts parts' : List Element} (name : String)
    (hplace : place ≠ .inData) :
    RewrappedAll place parts parts' →
      decodeMemberValue name parts' = decodeMemberValue name parts
  | .nil => rfl
  | @RewrappedAll.cons _ part _ _ _ hpart h => by
    rw [decodeMemberValue, decodeMemberValue, hpart.name_eq]
    by_cases hvalue : part.name = "value"
    · rw [if_pos hvalue, if_pos hvalue]
      exact decodeValue_rewrapped hplace (Place.below_of_value hvalue) hpart
    · rw [if_neg hvalue, if_neg hvalue]
      exact decodeMemberValue_rewrapped name hplace h

end

/-- **Items in one more `value` are decoded alike.**  Whichever items of the arrays in a tree are
    put into one more `value`, the tree stands for the same node, or is refused for the same
    reason. -/
theorem decode_rewrapped {v v' : Element} (h : Rewrapped .elsewhere v v') :
    decodeValue v' = decodeValue v := by
  have hroot : Place.elsewhere ≠ .inArray := by decide
  exact decodeValue_rewrapped (by decide) (Place.below_ne_inData hroot) h

/-- An array of items in the `value` of a reply. -/
def arrayValue (items : List Element) : Element :=
  ⟨"value", "", [⟨"array", "", [⟨"data", "", items⟩]⟩]⟩

/-- Of an array with an array and a number in it, the array and the text in that array are put into
    one more `value`, and the number is not. -/
theorem decode_rewrapped_nested :
    let number : Element := ⟨"value", "", [⟨"i4", "1", []⟩]⟩
    let single := arrayValue [arrayValue [⟨"value", " x ", []⟩], number]
    let double := arrayValue [⟨"value", "\n",
      [arrayValue [⟨"value", "", [⟨"value", " x ", []⟩]⟩]]⟩, number]
    Rewrapped .elsewhere single double ∧
      decodeValue single = .ok (.array [.array [.string " x "], .scalar ⟨.integer, "1"⟩]) ∧
      decodeValue double = decodeValue single := by
  intro number single double
  have hnumber : Rewrapped .inData number number :=
    .kept (.cons (.kept .nil) .nil)
  have htext : Rewrapped .inData ⟨"value", " x ", []⟩ ⟨"value", "", [⟨"value", " x ", []⟩]⟩ :=
    .wrapped "" ⟨rfl, by decide, nofun⟩ (.kept .nil)
  have harray : Rewrapped .inData (arrayValue [⟨"value", " x ", []⟩])
      ⟨"value", "\n", [arrayValue [⟨"value", "", [⟨"value", " x ", []⟩]⟩]]⟩ := by
    refine .wrapped "\n" ⟨rfl, rfl, fun inner hinner => ?_⟩ ?_
    · cases hinner
      decide
    · exact .kept (.cons (.kept (.cons (.kept (.cons htext .nil)) .nil)) .nil)
  have hdouble : Rewrapped .elsewhere single double :=
    .kept (.cons (.kept (.cons (.kept (.cons harray (.cons hnumber .nil))) .nil)) .nil)
  exact ⟨hdouble, rfl, decode_rewrapped hdouble⟩

/-- An item that a `value` comes first in is looked through already, and is not once more. -/
example :
    decodeValue (arrayValue [⟨"value", "", [⟨"value", "1", []⟩]⟩]) = .ok (.array [.string "1"]) ∧
    decodeValue (arrayValue [⟨"value", "", [⟨"value", "", [⟨"value", "1", []⟩]⟩]⟩]) =
      .ok (.array [.scalar ⟨.unregistered "value", "1"⟩]) :=
  ⟨rfl, rfl⟩

end XmlRpc.Reply
