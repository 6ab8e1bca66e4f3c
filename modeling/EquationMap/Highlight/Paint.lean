import EquationMap.Highlight.Scan

namespace EquationMap.Highlight

/-! Coloured formulas on a terminal. Ink never runs over the end of a line. -/

def paintLines (ink : Ink) (current : List Char) : List Char → String
  | [] => if current.isEmpty then "" else ink.paint (String.ofList current.reverse)
  | c :: rest =>
      if c = '\n' then
        ink.paint (String.ofList current.reverse) ++ "\n" ++ paintLines ink [] rest
      else if Text.isLineEnd c then
        ink.paint (String.ofList (c :: current).reverse) ++ paintLines ink [] rest
      else paintLines ink (c :: current) rest

def paint (text : String) : String :=
  let painted := String.join ((pieces text).map fun piece =>
    paintLines piece.category.ink [] piece.text)
  String.ofList (painted.toList.reverse.dropWhile (· = '\n')).reverse

end EquationMap.Highlight
