/-!
# Finite tables

A table is a list of entries with distinct keys, in the order of their first
insertion. Writing an existing key replaces its value in place. `find?_insert`
is the law of the one view that the library uses.
-/

namespace EventScript

/-- Finite map that keeps the order of first insertion. -/
structure Table (κ : Type) (α : Type) where
  entries : List (κ × α) := []
  deriving DecidableEq, Repr

namespace Table

variable {κ α : Type} [DecidableEq κ]

/-- The table without entries. -/
def empty : Table κ α := {}

instance : Inhabited (Table κ α) := ⟨empty⟩

/-- Number of entries. -/
def size (t : Table κ α) : Nat := t.entries.length

/-- Keys in the order of first insertion. -/
def keys (t : Table κ α) : List κ := t.entries.map Prod.fst

/-- The value of the first entry with the key. -/
def lookup (k : κ) : List (κ × α) → Option α
  | [] => none
  | (k', v) :: rest => if k' = k then some v else lookup k rest

/-- Replace the first entry with the key, or append one. -/
def write (k : κ) (v : α) : List (κ × α) → List (κ × α)
  | [] => [(k, v)]
  | (k', v') :: rest => if k' = k then (k, v) :: rest else (k', v') :: write k v rest

/-- The value stored under a key. -/
def find? (t : Table κ α) (k : κ) : Option α := lookup k t.entries

/-- The value stored under a key, or `fallback` where there is none. -/
def findD (t : Table κ α) (k : κ) (fallback : α) : α := (t.find? k).getD fallback

/-- The key has a value. -/
def contains (t : Table κ α) (k : κ) : Bool := (t.find? k).isSome

/-- Store a value, in place of an older one under the same key. -/
def insert (t : Table κ α) (k : κ) (v : α) : Table κ α := ⟨write k v t.entries⟩

/-- Insert a list of pairs from left to right. -/
def insertMany (t : Table κ α) (pairs : List (κ × α)) : Table κ α :=
  pairs.foldl (fun table pair => table.insert pair.1 pair.2) t

/-- A table from pairs; of two pairs with one key the later wins. -/
def ofList (pairs : List (κ × α)) : Table κ α := empty.insertMany pairs

/-- Entries in ascending order of their text keys. -/
def sorted (t : Table String α) : List (String × α) :=
  t.entries.mergeSort fun a b => decide (a.1 ≤ b.1)

/-- An empty table has no entry. -/
@[simp] theorem find?_empty (k : κ) : (empty : Table κ α).find? k = none := rfl

/-- Looking a list up after a write. -/
theorem lookup_write (k k' : κ) (v : α) (l : List (κ × α)) :
    lookup k' (write k v l) = if k = k' then some v else lookup k' l := by
  induction l with
  | nil => simp [write, lookup]
  | cons e rest ih =>
    obtain ⟨k₀, v₀⟩ := e
    by_cases h₀ : k₀ = k
    · subst h₀
      by_cases h : k₀ = k' <;> simp [write, lookup, h]
    · by_cases h : k = k'
      · subst h
        simp [write, lookup, h₀, ih]
      · by_cases h₁ : k₀ = k'
        · subst h₁
          simp [write, lookup, h₀, h]
        · simp [write, lookup, h₀, h, h₁, ih]

/-- Writing changes the view at the written key and nowhere else. -/
theorem find?_insert (t : Table κ α) (k k' : κ) (v : α) :
    (t.insert k v).find? k' = if k = k' then some v else t.find? k' :=
  lookup_write k k' v t.entries

/-- What was just inserted is found. -/
@[simp] theorem find?_insert_self (t : Table κ α) (k : κ) (v : α) :
    (t.insert k v).find? k = some v := by
  simp [find?_insert]

/-- A write leaves every other key alone. -/
theorem find?_insert_of_ne (t : Table κ α) {k k' : κ} (v : α) (h : k ≠ k') :
    (t.insert k v).find? k' = t.find? k' := by
  simp [find?_insert, h]

end Table

end EventScript
