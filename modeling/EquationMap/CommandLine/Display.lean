import EquationMap.Highlight.Paint
import EquationMap.Rendering
import EquationMap.Syntax.Outline
import EquationMap.Text.Padding

namespace EquationMap.CommandLine

def tableHeader : String :=
  Text.padLeft 10 "range" ++ "  " ++ Text.padLeft 7 "x" ++ " " ++ Text.padLeft 7 "y" ++ " " ++
    Text.padLeft 7 "width" ++ " " ++ Text.padLeft 7 "height" ++ "  " ++ Text.padLeft 3 "n" ++
    "  text"

def tableRow (colored : Bool) (record : Subexpression Float) : String :=
  let range := toString record.range.start ++ ".." ++ toString record.range.stop
  let length (value : Float) := Text.padLeft 7 (Decimal.toFixed 2 value)
  Text.padLeft 10 range ++ "  " ++ length record.x ++ " " ++ length record.y ++ " " ++
    length record.width ++ " " ++ length record.height ++ "  " ++
    Text.padLeft 3 (toString record.fragments) ++ "  " ++
    if colored then Highlight.paint record.text else record.text

def indented (depth : Nat) (text : String) : String :=
  String.ofList (List.replicate (2 * depth) ' ') ++ text

/-- A node with its number, and with its range and text if its span is resolved. The number 1
is that of no file. -/
def nodeLine (source : Source) (name : String) (span : Span) : String :=
  let number :=
    match span with
    | .detached => 1
    | .numbered _ number => number
  let located :=
    match source.resolver span with
    | none => ""
    | some range => " " ++ range.toText ++ " " ++ Text.quoted (source.textAt range)
  name ++ " #" ++ toString number ++ located

mutual

def treeLines (source : Source) (depth : Nat) : Outline → List String
  | .node name place details =>
      indented depth (nodeLine source name place.span) ::
        detailsLines source (depth + 1) details

def detailsLines (source : Source) (depth : Nat) : List Detail → List String
  | [] => []
  | detail :: rest => detailLines source depth detail ++ detailsLines source depth rest

def detailLines (source : Source) (depth : Nat) : Detail → List String
  | .absent _ => []
  | .text name value => [indented depth (name ++ ": " ++ Text.quoted value)]
  | .count name value => [indented depth (name ++ ": " ++ toString value)]
  | .integer name value => [indented depth (name ++ ": " ++ toString value)]
  | .decimal name value => [indented depth (name ++ ": " ++ Decimal.toText value.toFloat)]
  | .truth name value => [indented depth (name ++ ": " ++ if value then "True" else "False")]
  | .part name outline =>
      indented depth (name ++ ":") :: treeLines source (depth + 1) outline
  | .parts name [] => [indented depth (name ++ ": []")]
  | .parts name (outline :: rest) =>
      indented depth (name ++ ":") :: treeLines source (depth + 1) outline ++
        forestLines source (depth + 1) rest

def forestLines (source : Source) (depth : Nat) : List Outline → List String
  | [] => []
  | outline :: rest => treeLines source depth outline ++ forestLines source depth rest

end

end EquationMap.CommandLine
