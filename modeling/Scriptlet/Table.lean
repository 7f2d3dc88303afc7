/-!
# Tables

A finite map as a list of entries, each key at most once if built by `insert`.
-/

namespace Scriptlet

/-- A finite map from `κ` to `α`. -/
structure Table (κ α : Type) where
  entries : List (κ × α)
  deriving Repr

namespace Table

variable {κ α : Type} [DecidableEq κ]

/-- The table with no entries. -/
def empty : Table κ α := ⟨[]⟩

instance : Inhabited (Table κ α) := ⟨empty⟩

/-- The value stored under a key, in a list of entries. -/
def lookup (key : κ) : List (κ × α) → Option α
  | [] => none
  | (k, a) :: rest => if k = key then some a else lookup key rest

/-- The value stored under a key. -/
def find? (t : Table κ α) (key : κ) : Option α := lookup key t.entries

/-- Whether something is stored under a key. -/
def contains (t : Table κ α) (key : κ) : Bool := (t.find? key).isSome

/-- Stores a value in a list of entries: in place of the old one, or at the end. -/
def store (key : κ) (value : α) : List (κ × α) → List (κ × α)
  | [] => [(key, value)]
  | (k, a) :: rest => if k = key then (key, value) :: rest else (k, a) :: store key value rest

/-- Stores a value under a key, in place of the old one. -/
def insert (t : Table κ α) (key : κ) (value : α) : Table κ α := ⟨store key value t.entries⟩

/-- How many keys have a value. -/
def size (t : Table κ α) : Nat := t.entries.length

theorem lookup_store (key key' : κ) (value : α) (entries : List (κ × α)) :
    lookup key' (store key value entries) =
      if key = key' then some value else lookup key' entries := by
  induction entries with
  | nil => simp [store, lookup]
  | cons entry rest ih =>
    obtain ⟨k, a⟩ := entry
    by_cases h : k = key
    · subst h; by_cases h' : k = key' <;> simp [store, lookup, h']
    · by_cases h' : k = key'
      · subst h'; simp [store, lookup, h, Ne.symm h]
      · simp [store, lookup, h, h', ih]

/-- **An insertion changes one key.** -/
theorem find?_insert (t : Table κ α) (key key' : κ) (value : α) :
    (t.insert key value).find? key' = if key = key' then some value else t.find? key' :=
  lookup_store key key' value t.entries

@[simp] theorem find?_empty (key : κ) : (empty : Table κ α).find? key = none := rfl

end Table
end Scriptlet
