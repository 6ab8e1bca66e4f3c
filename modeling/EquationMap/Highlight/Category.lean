import EquationMap.Terminal.Ink

namespace EquationMap.Highlight

inductive Category where
  | blank | plain | punctuation | operator | keyword | functionName | constantName | letter | number
  | string | escape | error
  deriving DecidableEq

namespace Category

def name : Category → String
  | blank => "Token.Text.Whitespace"
  | plain => "Token.Text"
  | punctuation => "Token.Punctuation"
  | operator => "Token.Operator"
  | keyword => "Token.Keyword.Constant"
  | functionName => "Token.Name.Function"
  | constantName => "Token.Name.Constant"
  | letter => "Token.Name.Variable"
  | number => "Token.Literal.Number"
  | string => "Token.Literal.String"
  | escape => "Token.Literal.String.Escape"
  | error => "Token.Error"

def ink : Category → Ink
  | plain | punctuation | operator => .plain
  | blank => .gray
  | keyword | number => .blue
  | functionName => .green
  | constantName | letter => .red
  | string | escape => .yellow
  | error => .underlinedRed

end Category

end EquationMap.Highlight
