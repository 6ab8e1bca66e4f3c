import EquationMap.Source.Diagnostic
import EquationMap.Syntax.Token
import EquationMap.Text.Quoted

namespace EquationMap

def maxNesting : Nat := 64

inductive ScriptSide where
  | below | above
  deriving DecidableEq

inductive SyntaxFault where
  | unclosedString
  | missingEmbedded
  | unclosedGroup
  | unclosedBlock
  | strayInCode (c : Char)
  | nestedTooDeep
  | unexpected (expected : TokenKind) (found : TokenKind) (value : String)
  | missingOperand (symbol : String)
  | missingDenominator
  | missingScript (side : ScriptSide)
  | missingRadicand
  | missingBase (mark : String)
  | unclosedDelimiter
  | unclosedArguments
  | notAnExpression (found : TokenKind) (value : String)
  | mixedItems
  | invalidArgumentName
  | parsedTooDeep
  deriving DecidableEq

namespace SyntaxFault

def code : SyntaxFault → String
  | unclosedString => "E101"
  | missingEmbedded => "E102"
  | unclosedGroup => "E103"
  | unclosedBlock => "E104"
  | strayInCode _ => "E105"
  | nestedTooDeep => "E106"
  | unexpected _ _ _ => "E200"
  | missingOperand _ => "E201"
  | missingDenominator => "E202"
  | missingScript _ => "E203"
  | missingRadicand => "E204"
  | missingBase _ => "E205"
  | unclosedDelimiter => "E206"
  | unclosedArguments => "E207"
  | notAnExpression _ _ => "E210"
  | mixedItems => "E211"
  | invalidArgumentName => "E212"
  | parsedTooDeep => "E213"

def message : SyntaxFault → String
  | unclosedString => "unclosed string"
  | missingEmbedded => "expected expression after '#'"
  | unclosedGroup => "unclosed parenthesis"
  | unclosedBlock => "unclosed content block"
  | strayInCode c => "unexpected character in code: " ++ Text.quoted c.toString
  | nestedTooDeep | parsedTooDeep =>
      "maximum nesting depth of " ++ toString maxNesting ++ " exceeded"
  | unexpected expected found value =>
      "expected " ++ expected.name ++ ", got " ++ found.name ++
        " (" ++ Text.quoted value ++ ")"
  | missingOperand symbol => "expected expression after \"" ++ symbol ++ "\""
  | missingDenominator => "missing denominator"
  | missingScript .below => "missing subscript"
  | missingScript .above => "missing superscript"
  | missingRadicand => "missing radicand"
  | missingBase mark => "expected base before \"" ++ mark ++ "\""
  | unclosedDelimiter => "unclosed delimiter"
  | unclosedArguments => "unclosed argument list"
  | notAnExpression found value =>
      "expected expression, found " ++ found.name ++ " (" ++ Text.quoted value ++ ")"
  | mixedItems => "cannot mix positional and named items"
  | invalidArgumentName => "expected identifier as argument name"

end SyntaxFault

structure SyntaxError where
  fault : SyntaxFault
  range : ByteRange
  deriving DecidableEq

def SyntaxError.diagnostic (error : SyntaxError) : Diagnostic :=
  .error error.fault.code error.fault.message (some error.range)

end EquationMap
