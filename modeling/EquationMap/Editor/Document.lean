import EquationMap.Editor.Position
import EquationMap.Rendering

namespace EquationMap.Editor

/-! Open documents. Each holds one formula, which is rendered whenever its text changes. -/

structure Remark where
  selection : Selection
  severity : Severity
  code : Option String
  message : String
  deriving DecidableEq

def remarkSource : String := "mathspan"

def severityGrade : Severity → Nat
  | .error => 1
  | .warning => 2
  | .note => 3

def Remark.overall (text message : String) : Remark :=
  ⟨.whole text, .error, none, message⟩

def Remark.ofDiagnostic (text title : String) (diagnostic : Diagnostic) : Remark :=
  { selection := diagnostic.range?.elim (.whole text) (.ofRange text)
    severity := diagnostic.severity
    code := some diagnostic.code
    message := title ++ ": " ++ diagnostic.message }

def remarks (text : String) : Failure → List Remark
  | .broken breakdown => [.overall text ("[internal] " ++ breakdown.message)]
  | .refused refusal =>
      match refusal.diagnostics with
      | [] => [.overall text refusal.message]
      | diagnostics => diagnostics.map (.ofDiagnostic text refusal.stage.title)

structure Document where
  text : String
  rendering : Option Rendering
  remarks : List Remark

namespace Document

def ofText (text : String) : Document :=
  match render text with
  | .ok rendering => ⟨text, some rendering, []⟩
  | .error failure => ⟨text, none, Editor.remarks text failure⟩

def subexpressions (document : Document) : List (Subexpression Float) :=
  document.rendering.elim [] Rendering.subexpressions

end Document

structure Hover where
  value : String
  selection : Selection
  deriving DecidableEq

def describe (record : Subexpression Float) : String :=
  "`" ++ record.text ++ "`\n\nx: " ++ Decimal.toFixed 2 record.x ++ "pt, y: " ++
    Decimal.toFixed 2 record.y ++ "pt, " ++ Decimal.toFixed 2 record.width ++ " × " ++
    Decimal.toFixed 2 record.height ++ "pt (" ++ toString record.fragments ++ " fragments)"

def Document.hover (document : Document) (position : Position) : Option Hover :=
  (Subexpression.innermost? (position.offset document.text) document.subexpressions).map
    fun record => ⟨describe record, .ofRange document.text record.range⟩

end EquationMap.Editor
