import EquationMap.Source.Diagnostic
import EquationMap.Terminal.Ink
import EquationMap.Text.Lines
import EquationMap.Text.Padding
import EquationMap.Text.Position

namespace EquationMap

structure ReportStyle where
  colored : Bool := true
  filename : String := "<input>"

def Severity.ink : Severity → Ink
  | error => .boldRed
  | warning => .boldYellow
  | note => .boldCyan

namespace ReportStyle

def paint (style : ReportStyle) (ink : Ink) (text : String) : String :=
  (ink.only style.colored).paint text

def line (style : ReportStyle) (margin text : String) : String :=
  "  " ++ style.paint .boldBlue margin ++ text

def bar : String := "   |"

/-- Marks under the columns between two places of one line, at least one. -/
def marks (first last : Text.LineColumn) : String :=
  String.ofList (List.replicate (max 1 (last.column - first.column)) '^')

/-- The line of the source that a place starts in, and the marks if it ends there too. -/
def excerpt (style : ReportStyle) (ink : Ink) (sourceLines : List String)
    (first last : Text.LineColumn) : List String :=
  match sourceLines[first.line - 1]? with
  | none => []
  | some text =>
      let shown := style.line (Text.padLeft 4 (toString first.line) ++ " |") (" " ++ text)
      if first.line = last.line then
        [shown, style.line bar
          (" " ++ String.ofList (List.replicate (first.column - 1) ' ') ++
            style.paint ink (marks first last))]
      else [shown]

def remark (style : ReportStyle) (ink : Ink) (message : String) : List String :=
  if message.isEmpty then [] else [style.line bar ("   " ++ style.paint ink message)]

def place (style : ReportStyle) (ink : Ink) (source : String) (label : Label) : List String :=
  match label.range with
  | none => []
  | some range =>
      let first := Text.lineColumn source range.start
      let last := Text.lineColumn source range.stop
      style.line "-->"
          (" " ++ style.filename ++ ":" ++ toString first.line ++ ":" ++
            toString first.column) ::
        style.line bar "" :: style.excerpt ink (Text.splitLines source) first last ++
          style.remark ink label.message

end ReportStyle

def Diagnostic.header (style : ReportStyle) (diagnostic : Diagnostic) : String :=
  style.paint diagnostic.severity.ink
      (diagnostic.severity.name ++ "[" ++ diagnostic.code ++ "]") ++
    style.paint .bold (": " ++ diagnostic.message)

def Diagnostic.reportLines (style : ReportStyle) (source : String) (diagnostic : Diagnostic) :
    List String :=
  diagnostic.header style ::
    diagnostic.labels.flatMap (style.place diagnostic.severity.ink source) ++
    diagnostic.notes.map fun note => style.line "=" (" note: " ++ note)

def Diagnostic.report (style : ReportStyle) (source : String) (diagnostic : Diagnostic) :
    String :=
  "\n".intercalate (diagnostic.reportLines style source)

end EquationMap
