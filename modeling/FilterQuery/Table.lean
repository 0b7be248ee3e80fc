namespace FilterQuery

-- One value for each key, in the order the keys first came.
structure Table (κ α : Type) where
  entries : List (κ × α)

namespace Table

variable {κ α : Type}

def empty : Table κ α := ⟨[]⟩

def keys (t : Table κ α) : List κ := t.entries.map (·.1)

def size (t : Table κ α) : Nat := t.entries.length

def isEmpty (t : Table κ α) : Bool := t.entries.isEmpty

variable [DecidableEq κ]

def put (key : κ) (value : α) : List (κ × α) → List (κ × α)
  | [] => [(key, value)]
  | (k, v) :: rest => if k = key then (key, value) :: rest else (k, v) :: put key value rest

def get? (t : Table κ α) (key : κ) : Option α := t.entries.lookup key

def contains (t : Table κ α) (key : κ) : Bool := (t.get? key).isSome

-- A key that is there keeps its place.
def insert (t : Table κ α) (key : κ) (value : α) : Table κ α := ⟨put key value t.entries⟩

def erase (t : Table κ α) (key : κ) : Table κ α := ⟨t.entries.filter (·.1 != key)⟩

def map (f : α → α) (t : Table κ α) : Table κ α := ⟨t.entries.map fun (k, v) => (k, f v)⟩

end Table
end FilterQuery
