/-!
# Tables

Finite maps from names that remember the order in which their keys were first inserted. Replacing
a value keeps the place of its key.
-/

namespace Forthline

structure Table (α : Type) where
  entries : List (String × α) := []

namespace Table

variable {α : Type}

instance : Inhabited (Table α) := ⟨{}⟩

def get? (t : Table α) (key : String) : Option α := t.entries.lookup key

def contains (t : Table α) (key : String) : Bool := (t.get? key).isSome

def insertEntry (key : String) (a : α) : List (String × α) → List (String × α)
  | [] => [(key, a)]
  | e :: es => if e.1 = key then (key, a) :: es else e :: insertEntry key a es

def insert (t : Table α) (key : String) (a : α) : Table α := ⟨insertEntry key a t.entries⟩

def erase (t : Table α) (key : String) : Table α := ⟨t.entries.filter fun e => e.1 ≠ key⟩

def keys (t : Table α) : List String := t.entries.map Prod.fst

def size (t : Table α) : Nat := t.entries.length

end Table

end Forthline
