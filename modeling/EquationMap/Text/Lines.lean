namespace EquationMap.Text

def isLineEnd (c : Char) : Bool :=
  ['\n', '\r', '\x0b', '\x0c', '\x1c', '\x1d', '\x1e', '\u0085', '\u2028', '\u2029'].contains c

/-- The lines of a text without their ends. A line end that closes the text starts no line. -/
def displayLines (current : List Char) : List Char → List (List Char)
  | [] => if current.isEmpty then [] else [current.reverse]
  | '\r' :: '\n' :: rest => current.reverse :: displayLines [] rest
  | c :: rest =>
      if isLineEnd c then current.reverse :: displayLines [] rest
      else displayLines (c :: current) rest

def splitLines (text : String) : List String :=
  (displayLines [] text.toList).map String.ofList

def unifyLineEnds : List Char → List Char
  | [] => []
  | '\r' :: '\n' :: rest => '\n' :: unifyLineEnds rest
  | c :: rest => (if c = '\r' then '\n' else c) :: unifyLineEnds rest

end EquationMap.Text
