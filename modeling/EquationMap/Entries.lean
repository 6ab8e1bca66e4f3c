namespace EquationMap

/-- Values under distinct keys, in the order in which the keys were first given. -/
abbrev Entries (α : Type) := List (String × α)

namespace Entries

/-- Puts a value under a key. A key that is present keeps its place. -/
def put (key : String) (value : α) : Entries α → Entries α
  | [] => [(key, value)]
  | (other, old) :: rest =>
      if other = key then (key, value) :: rest else (other, old) :: put key value rest

def get? (entries : Entries α) (key : String) : Option α :=
  entries.lookup key

def has (entries : Entries α) (key : String) : Bool :=
  (entries.get? key).isSome

def keys (entries : Entries α) : List String :=
  entries.map Prod.fst

def remove (key : String) (entries : Entries α) : Entries α :=
  entries.filter (·.1 ≠ key)

def putAll (entries later : Entries α) : Entries α :=
  later.foldl (fun entries entry => entries.put entry.1 entry.2) entries

end Entries

end EquationMap
