import EquationMap.Evaluation.Fault
import EquationMap.Outcome

namespace EquationMap

inductive Halt where
  | error (error : EvalError)
  | number (fault : NumberFault)

abbrev Evaluation := Outcome EvalError Halt

namespace Evaluation

def fail (fault : EvalFault) (span : Span) : Evaluation α :=
  .stop (.error ⟨fault, span⟩)

def failNumber (fault : NumberFault) : Evaluation α :=
  .stop (.number fault)

def lift : Except NumberFault α → Evaluation α
  | .ok value => return value
  | .error fault => failNumber fault

def recover (evaluation : Evaluation α) : Evaluation (Option α) :=
  match evaluation.result with
  | .ok value => ⟨evaluation.reports, .ok (some value)⟩
  | .error (.error error) => ⟨evaluation.reports ++ [error], .ok none⟩
  | .error (.number fault) => ⟨evaluation.reports, .error (.number fault)⟩

end Evaluation

end EquationMap
