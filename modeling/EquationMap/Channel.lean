namespace EquationMap.Channel

def root : String := "mathspan"

def qualified (name : String) : String :=
  if name = root ∨ name.startsWith (root ++ ".") then name else root ++ "." ++ name

end EquationMap.Channel
