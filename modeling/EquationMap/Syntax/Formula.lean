import EquationMap.Syntax.Grammar
import EquationMap.Syntax.Lexer

namespace EquationMap

inductive SyntaxFailure where
  | errors (errors : List SyntaxError)
  | number (fault : NumberFault)
  deriving DecidableEq

def Formula.ofTokens (tokens : TokenList) : Except SyntaxFailure Formula :=
  match Grammar.sequence (Grammar.phrase maxNesting) [] (Cursor.ofTokens tokens) with
  | .ok exprs cursor =>
      if cursor.errors.isEmpty then
        .ok ⟨exprs, { range := .between 0 cursor.current.range.stop }⟩
      else .error (.errors cursor.errors.reverse)
  | .error (.number fault) _ => .error (.number fault)
  | .error _ cursor => .error (.errors cursor.errors.reverse)

def Formula.ofText (text : String) : Except SyntaxFailure Formula :=
  match tokenize text with
  | .ok tokens => Formula.ofTokens tokens
  | .error errors => .error (.errors errors)

end EquationMap
