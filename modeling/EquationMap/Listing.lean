import EquationMap.Decimal.WrittenForm
import EquationMap.Source.Span
import EquationMap.Text.Quoted

namespace EquationMap

inductive Listing where
  | absent
  | truth (value : Bool)
  | integer (value : Int)
  | decimal (value : Float)
  | text (value : String)
  | word (value : String)
  | span (span : Span)
  | tuple (items : List Listing)
  | list (items : List Listing)
  | entries (entries : List (String × Listing))
  | record (name : String) (fields : List (String × Listing))

namespace Listing

def spanText : Span → Except NumberFault String
  | .detached => return "Span(file=None, number=1)"
  | .numbered file number => do
      return "Span(file=FileId(path=" ++ Text.quoted file ++ "), number=" ++
        (← Decimal.writeInteger number) ++ ")"

mutual

/-- The text of the data, unless an integer in it is too long. -/
def toText : Listing → Except NumberFault String
  | absent => return "None"
  | truth true => return "True"
  | truth false => return "False"
  | integer value => Decimal.writeInteger value
  | decimal value => return Decimal.toText value
  | text value => return Text.quoted value
  | word value => return value
  | span place => spanText place
  | tuple [item] => do return "(" ++ (← item.toText) ++ ",)"
  | tuple items => do return "(" ++ ", ".intercalate (← itemTexts items) ++ ")"
  | list items => do return "[" ++ ", ".intercalate (← itemTexts items) ++ "]"
  | entries pairs => do return "\x7b" ++ ", ".intercalate (← entryTexts pairs) ++ "\x7d"
  | record name fields => do
      return name ++ "(" ++ ", ".intercalate (← fieldTexts fields) ++ ")"

def itemTexts : List Listing → Except NumberFault (List String)
  | [] => return []
  | item :: rest => do
      let text ← item.toText
      return text :: (← itemTexts rest)

def entryTexts : List (String × Listing) → Except NumberFault (List String)
  | [] => return []
  | (key, value) :: rest => do
      let text ← value.toText
      return (Text.quoted key ++ ": " ++ text) :: (← entryTexts rest)

def fieldTexts : List (String × Listing) → Except NumberFault (List String)
  | [] => return []
  | (name, value) :: rest => do
      let text ← value.toText
      return (name ++ "=" ++ text) :: (← fieldTexts rest)

end

end Listing

end EquationMap
