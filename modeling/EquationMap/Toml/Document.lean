import EquationMap.Toml.Scan

namespace EquationMap.Toml

mutual

def value : Nat → Scan Value
  | 0 => failure
  | depth + 1 => do
      match ← get with
      | '[' :: rest =>
          set rest
          dropLines rest.length
          return .array (← items depth rest.length)
      | '\x7b' :: rest =>
          set rest
          dropSpaces
          match ← possibly (word "\x7d") with
          | some () => return .table .closed []
          | none => return .table .closed (← inlineEntries depth rest.length [])
      | _ => simpleValue

/-- The rest of an array of at most the given number of values. A comma may follow the last
one. -/
def items (depth : Nat) : Nat → Scan (List Value)
  | 0 => failure
  | fuel + 1 => do
      match ← possibly (word "]") with
      | some () => return []
      | none =>
          let item ← value depth
          dropLines fuel
          match ← possibly (word ",") with
          | some () =>
              dropLines fuel
              return item :: (← items depth fuel)
          | none =>
              word "]"
              return [item]

/-- The rest of a table on one line. No comma follows the last entry. -/
def inlineEntries (depth : Nat) : Nat → Table → Scan Table
  | 0, _ => failure
  | fuel + 1, table => do
      let path ← key
      word "="
      dropSpaces
      let item ← value depth
      let table ← (table.assign 0 item path : Option Table)
      dropSpaces
      match ← possibly (word ",") with
      | some () =>
          dropSpaces
          inlineEntries depth fuel table
      | none =>
          word "\x7d"
          return table

end

/-- A document as far as it is read: its data, the header of the current section and the
number of that section. -/
structure Document where
  root : Table := []
  header : List String := []
  part : Nat := 0

namespace Document

def openSection (document : Document) (change : String → Table → Option Table)
    (path : List String) : Option Document :=
  path.getLast?.bind fun last =>
    (Table.within (change last) path.dropLast document.root).map fun root =>
      ⟨root, path, document.part + 1⟩

def assign (document : Document) (path : List String) (item : Value) : Option Document :=
  (Table.within (Table.assign document.part item path) document.header document.root).map
    fun root => { document with root }

def headerStatement (document : Document) : Scan Document := do
  word "["
  let row ← possibly (word "[")
  dropSpaces
  let path ← key
  match row with
  | some () =>
      word "]]"
      (document.openSection Table.append path : Option Document)
  | none =>
      word "]"
      (document.openSection Table.declare path : Option Document)

def assignment (document : Document) : Scan Document := do
  let path ← key
  word "="
  dropSpaces
  let item ← value (← get).length
  (document.assign path item : Option Document)

def line (document : Document) : Scan Document := do
  dropSpaces
  let document ← (do
    match ← get with
    | [] | '\n' :: _ | '#' :: _ => return document
    | '[' :: _ => document.headerStatement
    | _ => document.assignment)
  dropSpaces
  comment
  return document

def lines : Nat → Document → List Char → Option Document
  | 0, _, _ => none
  | fuel + 1, document, text =>
      match document.line text with
      | none => none
      | some (document, []) => some document
      | some (document, c :: rest) => if c = '\n' then lines fuel document rest else none

end Document

def dropReturns : List Char → List Char
  | [] => []
  | '\r' :: '\n' :: rest => '\n' :: dropReturns rest
  | c :: rest => c :: dropReturns rest

def parse (text : String) : Option Table :=
  let text := dropReturns text.toList
  (Document.lines (text.length + 1) {} text).map Document.root

end EquationMap.Toml
