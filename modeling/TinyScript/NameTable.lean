/-!
# Name tables

A finite map from names. Names keep the order in which they were first entered.
-/

namespace TinyScript

structure NameTable (α : Type) where
  entries : List (String × α) := []

namespace NameTable

variable {α : Type}

instance : EmptyCollection (NameTable α) := ⟨⟨[]⟩⟩

def find? (table : NameTable α) (name : String) : Option α :=
  table.entries.lookup name

def contains (table : NameTable α) (name : String) : Bool :=
  (table.find? name).isSome

/-- The entries with the value under the name, in place if the name is there already. -/
def insertEntry (name : String) (value : α) : List (String × α) → List (String × α)
  | [] => [(name, value)]
  | (key, old) :: rest =>
    if key = name then (name, value) :: rest else (key, old) :: insertEntry name value rest

def insert (table : NameTable α) (name : String) (value : α) : NameTable α :=
  ⟨insertEntry name value table.entries⟩

@[simp] theorem find?_empty (name : String) : (∅ : NameTable α).find? name = none := rfl

private theorem lookup_insertEntry (name other : String) (value : α)
    (entries : List (String × α)) :
    (insertEntry name value entries).lookup other =
      if other = name then some value else entries.lookup other := by
  induction entries with
  | nil =>
      by_cases h : other = name
      · simp [insertEntry, h]
      · simp [insertEntry, List.lookup_cons, beq_eq_false_iff_ne.2 h, h]
  | cons entry rest ih =>
      obtain ⟨key, old⟩ := entry
      unfold insertEntry
      split
      · next hkey =>
          subst hkey
          by_cases h : other = key
          · simp [h]
          · simp [List.lookup_cons, beq_eq_false_iff_ne.2 h, h]
      · next hkey =>
          by_cases h : other = key
          · simp [h, hkey]
          · simp [List.lookup_cons, beq_eq_false_iff_ne.2 h, ih]

@[simp] theorem find?_insert (table : NameTable α) (name other : String) (value : α) :
    (table.insert name value).find? other =
      if other = name then some value else table.find? other := by
  exact lookup_insertEntry name other value table.entries

@[simp] theorem contains_insert (table : NameTable α) (name other : String) (value : α) :
    (table.insert name value).contains other = (other = name || table.contains other) := by
  by_cases h : other = name <;> simp [contains, h]

theorem mem_of_find? {table : NameTable α} {name : String} {value : α}
    (h : table.find? name = some value) : (name, value) ∈ table.entries := by
  obtain ⟨before, after, hentries, -⟩ := List.lookup_eq_some_iff.1 h
  rw [hentries]
  simp

end NameTable

end TinyScript
