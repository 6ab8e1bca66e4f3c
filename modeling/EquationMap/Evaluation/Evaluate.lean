import EquationMap.Evaluation.Function
import EquationMap.Evaluation.Operator
import EquationMap.Evaluation.Scope
import EquationMap.Syntax.Outline

namespace EquationMap

/-! Evaluating a tree to content. An error in one expression of a sequence is reported and
the expression left out; elsewhere an error stops the whole expression around it. -/

namespace Evaluate

def isMathIdent : Node → Bool
  | .mathIdent _ _ => true
  | _ => false

/-- Whether delimiters are round parentheses, which go where their group alone is put. -/
def isRound (opening closing : Delimiter) : Bool :=
  opening.text = "(" && closing.text = ")"

def lookup (scope : Scope) (name : String) (span : Span) : Evaluation Value :=
  match scope.lookup? name with
  | some value => return value
  | none => Evaluation.fail (.unknownVariable name) span

def delimiter (delimiter : Delimiter) : Content :=
  .plain delimiter.text delimiter.place.span

def applyFunction (function : Builtin) (arguments : Arguments) : Evaluation Value :=
  match function.call arguments with
  | .ok content => return .content content
  | .error halt => .stop halt

def displayed (evaluation : Evaluation Value) (span : Span) : Evaluation Content := do
  Evaluation.lift ((← evaluation).display span)

def shownCall (callee : Content) (arguments : List Content) (argsSpan span : Span) : Content :=
  let group :=
    .lr (some (.plain "(" argsSpan)) (.sequence arguments argsSpan)
      (some (.plain ")" argsSpan)) argsSpan
  .sequence [callee, group] span

def fieldOf (target : Value) (name : String) (span : Span) : Evaluation Value :=
  match target with
  | .dict entries =>
      match entries.lookup name with
      | some value => return value
      | none => Evaluation.fail (.missingKey name) span
  | other => Evaluation.fail (.noFields other.typeName) span

def decided? (op : BinaryOp) (left : Bool) : Option Bool :=
  match op, left with
  | .and, false => some false
  | .or, true => some true
  | _, _ => none

def asBool (op : BinaryOp) (value : Value) (span : Span) : Evaluation Bool :=
  match value with
  | .bool value => return value
  | other => Evaluation.fail (.invalidOperand op.symbol other.typeName) span

def isLogical (op : BinaryOp) : Bool :=
  op = .and || op = .or

def comma (isFirst : Bool) (span : Span) : List Content :=
  if isFirst then [] else [.plain "," span]

variable (scope : Scope)

mutual

/-- The value of a node. If so marked, a node in round parentheses gives its body alone. -/
def node (strip : Bool) : Node → Evaluation Value
  | .math exprs place => do return .content (.sequence (← sequence exprs) place.span)
  | .text written place => return .content (.plain written place.span)
  | .mathIdent name place | .ident name place => lookup scope name place.span
  | .shorthand _ symbol place => return .content (.plain symbol place.span)
  | .alignPoint place => return .content (.alignPoint place.span)
  | .linebreak place => return .content (.linebreak place.span)
  | .primes marks => return .content (.primes marks.count marks.place.span)
  | .delimited opening body bodyPlace closing place => do
      let inner := Content.sequence (← sequence body) bodyPlace.span
      if strip && isRound opening closing then return .content inner
      else
        return .content
          (.lr (some (delimiter opening)) inner (some (delimiter closing)) place.span)
  | .attach base bottom top marks place => do
      let base ← displayed (node false base) base.span
      let top ← script top
      let bottom ← script bottom
      let marks := marks.map fun marks => Content.primes marks.count marks.place.span
      return .content (.attach base top bottom marks place.span)
  | .frac num denom place => do
      let num ← displayed (node true num) num.span
      let denom ← displayed (node true denom) denom.span
      return .content (.frac num denom place.span)
  | .root degree radicand place => do
      let radicand ← displayed (node true radicand) radicand.span
      let index := degree.map fun degree => Content.plain (toString degree) place.span
      return .content (.root index radicand place.span)
  | .int value _ => return .int value
  | .float value place => return .float value.toFloat place.span
  | .str value _ => return .str value
  | .bool value _ => return .bool value
  | .noneLit _ => return .none
  | .autoLit _ => return .auto
  | .parenthesized expr _ => node false expr
  | .array elements _ => do return .array (← items elements)
  | .dict elements _ => do return .dict (← entries [] elements)
  | .contentBlock body bodyPlace _ => do
      return .content (.sequence (← sequence body) bodyPlace.span)
  | .call callee args argsPlace place => do
      match ← node false callee with
      | .func function => do
          applyFunction function (← arguments ⟨place.span, [], []⟩ args)
      | value =>
          if isMathIdent callee then do
            let shown ← shown argsPlace.span true args
            let callee ← Evaluation.lift (value.display callee.span)
            return .content (shownCall callee shown argsPlace.span place.span)
          else Evaluation.fail (.notAFunction value.typeName) callee.span
  | .field target name place => do fieldOf (← node false target) name place.span
  | .binary lhs op rhs place => do
      let left ← node false lhs
      if isLogical op then do
        match decided? op (← asBool op left place.span) with
        | some value => return .bool value
        | none => return .bool (← asBool op (← node false rhs) place.span)
      else do
        op.apply left (← node false rhs) lhs.span rhs.span place.span
  | .unary op expr place => do op.apply (← node false expr) place.span
  | .named name expr place =>
      Evaluation.fail (.notAnExpression (Node.named name expr place).kindName) place.span
  | .keyed key expr place =>
      Evaluation.fail (.notAnExpression (Node.keyed key expr place).kindName) place.span
  | .spread expr place =>
      Evaluation.fail (.notAnExpression (Node.spread expr place).kindName) place.span

def sequence : List Node → Evaluation (List Content)
  | [] => return []
  | expr :: rest => do
      let first ← Evaluation.recover (displayed (node false expr) expr.span)
      let others ← sequence rest
      return first.toList ++ others

def script : Option Node → Evaluation (Option Content)
  | none => return none
  | some expr => do return some (← displayed (node true expr) expr.span)

def items : List Node → Evaluation (List Value)
  | [] => return []
  | .spread expr place :: rest => do
      match ← node false expr with
      | .array spread => return spread ++ (← items rest)
      | other => Evaluation.fail (.notSpreadableIntoArray other.typeName) place.span
  | expr :: rest => do
      let first ← node false expr
      return first :: (← items rest)

def entries (found : Entries Value) : List Node → Evaluation (Entries Value)
  | [] => return found
  | .named name expr _ :: rest => do entries (found.put name (← node false expr)) rest
  | .keyed key expr _ :: rest => do
      match ← node false key with
      | .str name => entries (found.put name (← node false expr)) rest
      | other => Evaluation.fail (.keyNotString other.typeName) key.span
  | .spread expr place :: rest => do
      match ← node false expr with
      | .dict spread => entries (found.putAll spread) rest
      | other => Evaluation.fail (.notSpreadableIntoDictionary other.typeName) place.span
  | other :: _ => Evaluation.fail (.notAnExpression other.kindName) other.span

def arguments (found : Arguments) : List Node → Evaluation Arguments
  | [] => return found
  | .named name expr place :: rest => do
      let value ← node false expr
      arguments { found with named := found.named.put name (value, place.span) } rest
  | .spread expr place :: rest => do
      match ← node false expr with
      | .array spread =>
          arguments { found with
            positional := found.positional ++ spread.map fun value => (value, place.span) } rest
      | .dict spread =>
          arguments { found with
            named := found.named.putAll
              (spread.map fun (name, value) => (name, value, place.span)) } rest
      | other => Evaluation.fail (.notSpreadable other.typeName) place.span
  | expr :: rest => do
      let value ← node false expr
      arguments { found with positional := found.positional ++ [(value, expr.span)] } rest

/-- The arguments of a call as shown: with commas between them and names in front. -/
def shown (argsSpan : Span) (isFirst : Bool) : List Node → Evaluation (List Content)
  | [] => return []
  | .named name expr place :: rest => do
      let content ← displayed (node false expr) expr.span
      let label := Content.text (name ++ ":") true false place.span
      return comma isFirst argsSpan ++ label :: content :: (← shown argsSpan false rest)
  | .spread expr _ :: rest => do
      let content ← displayed (node false expr) expr.span
      return comma isFirst argsSpan ++ content :: (← shown argsSpan false rest)
  | expr :: rest => do
      let content ← displayed (node false expr) expr.span
      return comma isFirst argsSpan ++ content :: (← shown argsSpan false rest)

end

end Evaluate

inductive EvalFailure where
  | errors (errors : List EvalError)
  | number (fault : NumberFault)

def Formula.evaluate (formula : Formula) (scope : Scope) : Except EvalFailure Content :=
  let evaluation := Evaluate.sequence scope formula.exprs
  match evaluation.result with
  | .ok children =>
      if evaluation.reports.isEmpty then .ok (.sequence children formula.place.span)
      else .error (.errors evaluation.reports)
  | .error (.error error) => .error (.errors (evaluation.reports ++ [error]))
  | .error (.number fault) => .error (.number fault)

end EquationMap
