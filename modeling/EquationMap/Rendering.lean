import EquationMap.Evaluation.Evaluate
import EquationMap.Evaluation.Library
import EquationMap.Json
import EquationMap.Layout.Equation
import EquationMap.Source.Source
import EquationMap.Subexpression.Record
import EquationMap.Svg.Drawing

namespace EquationMap

inductive Stage where
  | numberize | parse | cast | eval | pack | layout
  deriving DecidableEq

namespace Stage

def name : Stage → String
  | numberize => "NUMBERIZE" | parse => "PARSE" | cast => "CAST" | eval => "EVAL"
  | pack => "PACK" | layout => "LAYOUT"

def all : List Stage := [numberize, parse, cast, eval, pack, layout]

def title : Stage → String
  | numberize => "Failed to numberize spans"
  | parse => "Parse error"
  | cast => "Failed to cast to Math"
  | eval => "Eval error"
  | pack => "Failed to pack equation"
  | layout => "Layout error"

def hasDetails : Stage → Bool
  | parse | eval | layout => true
  | numberize | cast | pack => false

def message (stage : Stage) (messages : List String) : String :=
  if stage.hasDetails then stage.title ++ ": " ++ "\n".intercalate messages else stage.title

end Stage

structure Refusal where
  stage : Stage
  diagnostics : List Diagnostic
  deriving DecidableEq

def Refusal.message (refusal : Refusal) : String :=
  refusal.stage.message (refusal.diagnostics.map Diagnostic.message)

inductive Breakdown where
  | number (fault : NumberFault)
  | layout (stop : LayoutStop)
  | drawing (fault : Svg.Undrawable)

def Breakdown.message : Breakdown → String
  | number fault => fault.message
  | layout stop => stop.message
  | drawing fault => fault.message

inductive Failure where
  | refused (refusal : Refusal)
  | broken (breakdown : Breakdown)

namespace Failure

def refuse (stage : Stage) (diagnostics : List Diagnostic) : Failure :=
  .refused ⟨stage, diagnostics⟩

def ofSyntax : SyntaxFailure → Failure
  | .errors errors => refuse .parse (errors.map SyntaxError.diagnostic)
  | .number fault => .broken (.number fault)

def ofEvaluation (resolver : Resolver) : EvalFailure → Failure
  | .errors errors => refuse .eval (errors.map fun error => error.diagnostic resolver)
  | .number fault => .broken (.number fault)

def ofLayout (resolver : Resolver) : LayoutFailure → Failure
  | .errors errors => refuse .layout (errors.map fun error => error.diagnostic resolver)
  | .stopped stop => .broken (.layout stop)

end Failure

def Source.ofText (text : String) : Except Failure Source :=
  match Formula.ofText text with
  | .error failure => .error (Failure.ofSyntax failure)
  | .ok formula =>
      match formula.number Source.mainFile .full with
      | .error _ => .error (Failure.refuse .numberize [])
      | .ok (numbered, spans) => .ok ⟨text, numbered, spans⟩

namespace Source

def evaluate (source : Source) (scope : Scope) : Except Failure Content :=
  match source.formula.evaluate scope with
  | .ok content => .ok content
  | .error failure => .error (Failure.ofEvaluation source.resolver failure)

def layout {α : Type} [Length α] (source : Source) (content : Content) (styles : Styles α)
    (region : Region α) : Except Failure (Frame α) :=
  match Layout.block content source.formula.place.span styles region with
  | .ok frame => .ok frame
  | .error failure => .error (Failure.ofLayout source.resolver failure)

def entries (source : Source) : List Entry :=
  source.formula.node.entries source.resolver source.text

end Source

structure Typeset (α : Type) [Length α] where
  source : Source
  content : Content
  frame : Frame α

def globalScope : Scope := [[], Library.entries]

def typeset {α : Type} [Length α] (text : String) : Except Failure (Typeset α) := do
  let source ← Source.ofText text
  let content ← source.evaluate globalScope
  let frame ← source.layout content Styles.standard {}
  return { source, content, frame }

def Typeset.subexpressions {α : Type} [Length α] (formula : Typeset α) :
    List (Subexpression α) :=
  Subexpression.correlate formula.source.entries
    (formula.frame.fragments formula.source.resolver .origin)

structure Rendering where
  formula : Typeset Float
  svg : String
  subexpressions : List (Subexpression Float)

def render (text : String) : Except Failure Rendering := do
  let formula ← typeset text
  match formula.frame.toSvg with
  | .ok svg => return { formula, svg, subexpressions := formula.subexpressions }
  | .error fault => throw (.broken (.drawing fault))

namespace Subexpression

def toJson (record : Subexpression Float) : Json :=
  .obj [("text", .str record.text), ("x", .float record.x), ("y", .float record.y),
    ("width", .float record.width), ("height", .float record.height),
    ("source_start", .int record.range.start), ("source_end", .int record.range.stop),
    ("glyph_lines", .int record.fragments)]

end Subexpression

def Rendering.toJson (rendering : Rendering) : Json :=
  .obj [("svg", .str rendering.svg),
    ("subexpressions", .arr (rendering.subexpressions.map Subexpression.toJson))]

def Refusal.toJson (refusal : Refusal) : Json :=
  .obj [("error", .str refusal.message)]

def Json.unwritable : Json :=
  .obj [("error", .str "JSON serialization failed")]

def Json.answered (data : Json) : Json :=
  if data.isFinite then data else unwritable

/-- Renders a text to a line of data; a refusal is told in it. -/
def renderJson (text : String) : Except Breakdown String :=
  match render text with
  | .ok rendering => .ok (rendering.toJson.answered.toText .compact)
  | .error (.refused refusal) => .ok (refusal.toJson.answered.toText .compact)
  | .error (.broken breakdown) => .error breakdown

end EquationMap
