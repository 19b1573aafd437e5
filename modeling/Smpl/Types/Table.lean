namespace Smpl

/-- Values under texts, in the order in which the texts were first used. -/
structure Table (α : Type) where
  entries : List (String × α)
deriving Repr, Inhabited

namespace Table

variable {α : Type}

def empty : Table α :=
  ⟨[]⟩

def size (table : Table α) : Nat :=
  table.entries.length

def keys (table : Table α) : List String :=
  table.entries.map (·.1)

def values (table : Table α) : List α :=
  table.entries.map (·.2)

def find? (table : Table α) (key : String) : Option α :=
  table.entries.lookup key

/-- Puts a value under a text. If there is one already, the new value takes its place. -/
def putIn (key : String) (value : α) : List (String × α) → List (String × α)
  | [] => [(key, value)]
  | (other, old) :: entries =>
    if other = key then (other, value) :: entries else (other, old) :: putIn key value entries

def put (table : Table α) (key : String) (value : α) : Table α :=
  ⟨putIn key value table.entries⟩

/-- Replaces every value by what a function gives for it. -/
def mapM {ε β : Type} (table : Table α) (f : α → Except ε β) : Except ε (Table β) := do
  let entries ← table.entries.mapM fun (key, value) => do
    let result ← f value
    return (key, result)
  return ⟨entries⟩

end Table

end Smpl
