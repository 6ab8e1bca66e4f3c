import EquationMap.Decimal.Fault
import EquationMap.Source.Diagnostic
import EquationMap.Source.Resolver

namespace EquationMap

/-- Why an expression has no value. Types are given by name. -/
inductive EvalFault where
  | notAnExpression (kind : String)
  | unknownVariable (name : String)
  | notAFunction (type : String)
  | missingArgument (what : String)
  | surplusArgument
  | unknownArgument (name : String)
  | invalidDelimiter (listing : String)
  | expectedString (type : String)
  | expectedBoolean (type : String)
  | notSpreadable (type : String)
  | notSpreadableIntoArray (type : String)
  | notSpreadableIntoDictionary (type : String)
  | keyNotString (type : String)
  | missingKey (key : String)
  | noFields (type : String)
  | invalidOperand (op type : String)
  | invalidOperands (op left right : String)
  | divisionByZero
  deriving DecidableEq

namespace EvalFault

def code : EvalFault → String
  | notAnExpression _ | notSpreadable _ | notSpreadableIntoArray _
  | notSpreadableIntoDictionary _ | keyNotString _ => "E300"
  | unknownVariable _ => "E310"
  | notAFunction _ => "E311"
  | missingArgument _ | surplusArgument | invalidDelimiter _ | expectedString _
  | expectedBoolean _ => "E312"
  | unknownArgument _ | invalidOperand _ _ | invalidOperands _ _ _ => "E313"
  | divisionByZero => "E314"
  | missingKey _ | noFields _ => "E315"

def message : EvalFault → String
  | notAnExpression kind => "cannot evaluate " ++ kind
  | unknownVariable name => "unknown variable: " ++ name
  | notAFunction type => "expected function, found " ++ type
  | missingArgument what => "missing argument: " ++ what
  | surplusArgument => "unexpected argument"
  | unknownArgument name => "unexpected argument: " ++ name
  | invalidDelimiter listing => "invalid delimiter: " ++ listing
  | expectedString type => "expected string, found " ++ type
  | expectedBoolean type => "expected boolean, found " ++ type
  | notSpreadable type => "cannot spread " ++ type
  | notSpreadableIntoArray type => "cannot spread " ++ type ++ " into array"
  | notSpreadableIntoDictionary type => "cannot spread " ++ type ++ " into dictionary"
  | keyNotString type => "expected string key, found " ++ type
  | missingKey key => "dictionary does not contain key " ++ Text.quoted key
  | noFields type => "cannot access fields on type " ++ type
  | invalidOperand op type => "cannot apply '" ++ op ++ "' to " ++ type
  | invalidOperands op left right =>
      "cannot apply '" ++ op ++ "' to " ++ left ++ " and " ++ right
  | divisionByZero => "cannot divide by zero"

end EvalFault

structure EvalError where
  fault : EvalFault
  span : Span
  deriving DecidableEq

def EvalError.diagnostic (error : EvalError) (resolver : Resolver) : Diagnostic :=
  .error error.fault.code error.fault.message (resolver error.span)

end EquationMap
