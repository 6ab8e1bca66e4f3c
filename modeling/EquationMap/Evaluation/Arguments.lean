import EquationMap.Evaluation.Evaluation
import EquationMap.Evaluation.Value

namespace EquationMap

structure Arguments where
  span : Span
  positional : List (Value × Span) := []
  named : Entries (Value × Span) := []

abbrev Taking := EStateM Halt Arguments

namespace Arguments

def eat : Taking (Option (Value × Span)) := fun arguments =>
  match arguments.positional with
  | [] => .ok none arguments
  | argument :: rest => .ok (some argument) { arguments with positional := rest }

def failCall (fault : EvalFault) : Taking α := fun arguments =>
  .error (.error ⟨fault, arguments.span⟩) arguments

def lift (result : Except NumberFault α) : Taking α := fun arguments =>
  match result with
  | .ok value => .ok value arguments
  | .error fault => .error (.number fault) arguments

/-- Takes the first positional argument; `what` names the parameter that needs it. -/
def expect (what : String) : Taking (Value × Span) := do
  match ← eat with
  | some argument => return argument
  | none => failCall (.missingArgument what)

def expectContent (what : String) : Taking Content := do
  let (value, span) ← expect what
  lift (value.display span)

def takeNamed (name : String) (default : Value) : Taking Value := fun arguments =>
  match arguments.named.get? name with
  | some (value, _) => .ok value { arguments with named := arguments.named.remove name }
  | none => .ok default arguments

def all : Taking (List (Value × Span)) := fun arguments =>
  .ok arguments.positional { arguments with positional := [] }

def displayAll (arguments : List (Value × Span)) : Except NumberFault (List Content) :=
  arguments.mapM fun (value, span) => value.display span

def allContent : Taking (List Content) := do
  let contents ← lift (displayAll (← get).positional)
  let _ ← all
  return contents

def finish : Taking Unit := fun arguments =>
  match arguments.positional, arguments.named with
  | (_, span) :: _, _ => .error (.error ⟨.surplusArgument, span⟩) arguments
  | [], (name, _, span) :: _ => .error (.error ⟨.unknownArgument name, span⟩) arguments
  | [], [] => .ok () arguments

def callSpan : Taking Span := fun arguments => .ok arguments.span arguments

end Arguments

end EquationMap
