import EquationMap.Channel
import EquationMap.Rendering

namespace EquationMap

inductive Event where
  | started (bytes : Nat)
  | evaluated
  | facesListed (count : Nat)
  | laidOut (width height : Float) (items : Nat)
  | correlated (entries fragments records : Nat)
  | drawn (length : Nat)
  | refused (refusal : Refusal)

namespace Event

def channel : Event → String
  | facesListed _ => "fonts"
  | laidOut _ _ _ => "layout"
  | correlated _ _ _ => "correlate"
  | _ => "compiler"

def message : Event → String
  | started bytes => "compiling " ++ toString bytes ++ " bytes of math"
  | evaluated => "evaluated math"
  | facesListed count => "built font catalog with " ++ toString count ++ " faces"
  | laidOut width height items =>
      "laid out equation: " ++ Decimal.toFixed 2 width ++ "x" ++ Decimal.toFixed 2 height ++
        "pt, " ++ toString items ++ " items"
  | correlated entries fragments records =>
      "correlated " ++ toString entries ++ " spans with " ++ toString fragments ++
        " fragments into " ++ toString records ++ " subexpressions"
  | drawn length => "rendered " ++ toString length ++ " bytes of SVG"
  | refused refusal =>
      "compilation failed (" ++ refusal.stage.name ++ "): " ++ refusal.message

def line (event : Event) : String :=
  Channel.qualified event.channel ++ ": " ++ event.message ++ "\n"

end Event

namespace Journal

def ofFailure : Failure → List Event
  | .refused refusal => [.refused refusal]
  | .broken _ => []

def ofFormula (formula : Typeset Float) : List Event :=
  let fragments := formula.frame.fragments formula.source.resolver .origin
  .laidOut formula.frame.width formula.frame.height formula.frame.items.length ::
    .correlated formula.source.entries.length fragments.length formula.subexpressions.length ::
    match formula.frame.toSvg with
    | .ok svg => [.drawn svg.length]
    | .error _ => []

def ofSource (source : Source) : List Event :=
  match source.evaluate globalScope with
  | .error failure => ofFailure failure
  | .ok content =>
      .evaluated :: .facesListed (FontFace.catalog (α := Float)).length ::
        match source.layout content Styles.standard {} with
        | .error failure => ofFailure failure
        | .ok frame => ofFormula { source, content, frame }

def ofText (text : String) : List Event :=
  .started (Text.byteLength text.toList) ::
    match Source.ofText text with
    | .error failure => ofFailure failure
    | .ok source => ofSource source

end Journal

end EquationMap
