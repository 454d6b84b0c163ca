/-
  XmlRpc/Members.lean
  ===================
  **Named members in the order of their first mention.**

  A struct is a list of names with values in which writing to a name that is
  already there replaces the value and keeps the place. Every list built by
  `insert` from the empty one has distinct names.
-/

namespace XmlRpc

/-- Names with their values, in order. -/
abbrev Members (α : Type) := List (String × α)

namespace Members

variable {α : Type}

/-- Gives `name` a value: in its place if the name is there, else at the end. -/
def insert (name : String) (value : α) : Members α → Members α
  | [] => [(name, value)]
  | (key, old) :: rest =>
    if key = name then (key, value) :: rest else (key, old) :: insert name value rest

/-- The value of `name`. -/
def get? (name : String) : Members α → Option α
  | [] => none
  | (key, value) :: rest => if key = name then some value else get? name rest

/-- The names in order. -/
def names (members : Members α) : List String :=
  members.map Prod.fst

/-- Inserts the entries one after the other into an empty struct. -/
def ofList (entries : List (String × α)) : Members α :=
  entries.foldl (fun members entry => insert entry.1 entry.2 members) []

@[simp] theorem get?_insert_self (name : String) (value : α) (members : Members α) :
    get? name (insert name value members) = some value := by
  induction members with
  | nil => simp [insert, get?]
  | cons entry rest ih =>
    by_cases h : entry.1 = name <;> simp [insert, get?, h, ih]

theorem get?_insert_of_ne {name other : String} (h : other ≠ name) (value : α)
    (members : Members α) : get? other (insert name value members) = get? other members := by
  induction members with
  | nil => simp [insert, get?, h.symm]
  | cons entry rest ih =>
    obtain ⟨key, old⟩ := entry
    by_cases hk : key = name
    · subst hk; simp [insert, get?, h.symm]
    · simp [insert, get?, hk, ih]

theorem mem_names_insert {name other : String} {value : α} {members : Members α} :
    other ∈ names (insert name value members) ↔ other = name ∨ other ∈ names members := by
  induction members with
  | nil => simp [insert, names]
  | cons entry rest ih =>
    obtain ⟨key, old⟩ := entry
    by_cases hk : key = name
    · subst hk; simp [insert, names]
    · simp only [names] at ih
      simp [insert, names, hk, ih, or_left_comm]

/-- Insertion keeps the names distinct. -/
theorem nodup_names_insert {members : Members α} (h : (names members).Nodup) (name : String)
    (value : α) : (names (insert name value members)).Nodup := by
  induction members with
  | nil => simp [insert, names]
  | cons entry rest ih =>
    obtain ⟨key, old⟩ := entry
    have hrest : key ∉ names rest ∧ (names rest).Nodup := by
      simpa [names] using h
    by_cases hk : key = name
    · simpa [insert, names, hk] using h
    · have hnot : key ∉ names (insert name value rest) := by
        rw [mem_names_insert]
        rintro (he | hm)
        · exact hk he
        · exact hrest.1 hm
      have hnodup := List.nodup_cons.2 ⟨hnot, ih hrest.2⟩
      simpa [insert, hk, names] using hnodup

end Members

end XmlRpc
