namespace EquationMap.Terminal

/-! Text without terminal codes. A code is an escape character and a bracket, any parameter
characters, then any intermediate ones, and a final character that ends it. -/

def isParameter (c : Char) : Bool :=
  '0' ≤ c && c ≤ '?'

def isIntermediate (c : Char) : Bool :=
  ' ' ≤ c && c ≤ '/'

def isFinal (c : Char) : Bool :=
  '@' ≤ c && c ≤ '~'

/-- What follows the code that the text starts with, unless it starts with none. -/
def afterCode? : List Char → Option (List Char)
  | '\x1b' :: '[' :: rest =>
      match (rest.dropWhile isParameter).dropWhile isIntermediate with
      | c :: rest => if isFinal c then some rest else none
      | [] => none
  | _ => none

def dropCodes : Nat → List Char → List Char
  | 0, text => text
  | _, [] => []
  | fuel + 1, c :: rest =>
      match afterCode? (c :: rest) with
      | some rest => dropCodes fuel rest
      | none => c :: dropCodes fuel rest

def bare (text : String) : String :=
  String.ofList (dropCodes text.length text.toList)

end EquationMap.Terminal
