import EquationMap.Entries

namespace EquationMap.Toml

inductive MomentKind where
  | date | time | dateTime
  deriving DecidableEq

/-- How a table came about. It decides what may be added to the table later on. -/
inductive Origin where
  | implied
  | dotted (part : Nat)
  | declared
  | closed
  deriving DecidableEq

/-- A value. Decimals and moments are kept as they are written. -/
inductive Value where
  | text (value : String)
  | integer (value : Int)
  | decimal (written : String)
  | truth (value : Bool)
  | moment (kind : MomentKind) (written : String)
  | array (items : List Value)
  | table (origin : Origin) (entries : List (String × Value))
  | tables (earlier : List (List (String × Value))) (last : List (String × Value))

abbrev Table := Entries Value

def Value.kindName : Value → String
  | text _ => "str"
  | integer _ => "int"
  | decimal _ => "float"
  | truth _ => "bool"
  | moment .date _ => "datetime.date"
  | moment .time _ => "datetime.time"
  | moment .dateTime _ => "datetime.datetime"
  | array _ | tables _ _ => "list"
  | table _ _ => "dict"

namespace Table

/-- Puts a value under a dotted key. The tables on the way must be new, implied, or named by a
dotted key of the same section, and the last key must be new. -/
def assign (part : Nat) (value : Value) : List String → Table → Option Table
  | [], _ => none
  | [key], table => if Entries.has table key then none else some (table ++ [(key, value)])
  | key :: path, table =>
      match table.get? key with
      | none =>
          (assign part value path []).map fun inner =>
            table.put key (.table (.dotted part) inner)
      | some (.table origin inner) =>
          if origin = .implied ∨ origin = .dotted part then
            (assign part value path inner).map fun inner =>
              table.put key (.table (.dotted part) inner)
          else none
      | some _ => none

/-- Changes the table at a path of keys. Missing tables on the way are implied, and of tables
in a row the last is meant. -/
def within (change : Table → Option Table) : List String → Table → Option Table
  | [], table => change table
  | key :: path, table =>
      match table.get? key with
      | none =>
          (within change path []).map fun inner => table.put key (.table .implied inner)
      | some (.table .closed _) => none
      | some (.table origin inner) =>
          (within change path inner).map fun inner => table.put key (.table origin inner)
      | some (.tables earlier last) =>
          (within change path last).map fun last => table.put key (.tables earlier last)
      | some _ => none

def declare (key : String) (table : Table) : Option Table :=
  match table.get? key with
  | none => some (table.put key (.table .declared []))
  | some (.table .implied inner) => some (table.put key (.table .declared inner))
  | some _ => none

def append (key : String) (table : Table) : Option Table :=
  match table.get? key with
  | none => some (table.put key (.tables [] []))
  | some (.tables earlier last) => some (table.put key (.tables (earlier ++ [last]) []))
  | some _ => none

end Table

end EquationMap.Toml
