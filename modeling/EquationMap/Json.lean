import EquationMap.Decimal.Count
import EquationMap.Decimal.WrittenForm
import EquationMap.Text.Hexadecimal

namespace EquationMap

/-! Data in JSON notation. Only quotes, backslashes and control characters are escaped, and
numbers are written with the fewest digits that read back. -/

inductive Json where
  | null
  | bool (value : Bool)
  | int (value : Int)
  | float (value : Float)
  | str (value : String)
  | arr (items : List Json)
  | obj (fields : List (String × Json))

namespace Json

def escaped (c : Char) : List Char :=
  if c = '"' ∨ c = '\\' then ['\\', c]
  else if c = '\n' then ['\\', 'n']
  else if c = '\r' then ['\\', 'r']
  else if c = '\t' then ['\\', 't']
  else if c = '\x0c' then ['\\', 'f']
  else if c = '\x08' then ['\\', 'b']
  else if c.toNat < 0x20 then '\\' :: 'u' :: Text.hexadecimal 4 c.toNat
  else [c]

def quote (text : String) : String :=
  String.ofList ('"' :: text.toList.flatMap escaped ++ ['"'])

/-- How items are set apart: between items, after keys, and around the items of a level. -/
structure Layout where
  separator : String
  keySeparator : String
  indent : Option Nat

def Layout.compact : Layout := ⟨",", ":", none⟩

def Layout.spaced : Layout := ⟨", ", ": ", none⟩

def Layout.indented (width : Nat) : Layout := ⟨",", ": ", some width⟩

/-- The layout for an indentation, if blanks of its width can be held. -/
def Layout.ofIndent : Option Nat → Except NumberFault Layout
  | none => .ok compact
  | some width => do return indented (← Count.heldCharacters [' '] (← Count.ofInt width))

def Layout.newline (layout : Layout) (level : Nat) : String :=
  match layout.indent with
  | none => ""
  | some width => "\n" ++ String.ofList (List.replicate (width * level) ' ')

def Layout.enclose (layout : Layout) (level : Nat) (opening closing : String) :
    List String → String
  | [] => opening ++ closing
  | items =>
      opening ++ layout.newline (level + 1) ++
        (layout.separator ++ layout.newline (level + 1)).intercalate items ++
        layout.newline level ++ closing

mutual

def write (layout : Layout) (level : Nat) : Json → String
  | null => "null"
  | bool true => "true"
  | bool false => "false"
  | int value => toString value
  | float value => Decimal.toText value
  | str value => quote value
  | arr items => layout.enclose level "[" "]" (writeItems layout (level + 1) items)
  | obj fields => layout.enclose level "\x7b" "\x7d" (writeFields layout (level + 1) fields)

def writeItems (layout : Layout) (level : Nat) : List Json → List String
  | [] => []
  | item :: rest => write layout level item :: writeItems layout level rest

def writeFields (layout : Layout) (level : Nat) : List (String × Json) → List String
  | [] => []
  | (key, value) :: rest =>
      (quote key ++ layout.keySeparator ++ write layout level value) ::
        writeFields layout level rest

end

def toText (layout : Layout) (data : Json) : String :=
  write layout 0 data

mutual

/-- Whether all numbers in the data can be written: the others are not finite. -/
def isFinite : Json → Bool
  | float value => value.isFinite
  | arr items => itemsAreFinite items
  | obj fields => fieldsAreFinite fields
  | null | bool _ | int _ | str _ => true

def itemsAreFinite : List Json → Bool
  | [] => true
  | item :: rest => item.isFinite && itemsAreFinite rest

def fieldsAreFinite : List (String × Json) → Bool
  | [] => true
  | (_, value) :: rest => value.isFinite && fieldsAreFinite rest

end

end Json

end EquationMap
