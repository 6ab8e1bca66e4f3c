import EquationMap.Evaluation.Value

namespace EquationMap

abbrev Scope := List (Entries Value)

namespace Scope

def lookup? (scope : Scope) (name : String) : Option Value :=
  match scope with
  | [] => none
  | level :: outer =>
      match level.get? name with
      | some value => some value
      | none => lookup? outer name

def names : Scope → List String
  | [] => []
  | level :: outer => level.keys ++ (names outer).filter fun name => !level.has name

end Scope

end EquationMap
