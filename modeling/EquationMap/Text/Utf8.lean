namespace EquationMap.Text

/-! Texts measured in UTF-8 bytes. Characters are never split by a caller that keeps to
character boundaries; a cut elsewhere leaves replacement characters. -/

def byteLength : List Char → Nat
  | [] => 0
  | c :: rest => c.utf8Size + byteLength rest

@[simp] theorem byteLength_nil : byteLength [] = 0 := rfl

@[simp] theorem byteLength_cons (c : Char) (rest : List Char) :
    byteLength (c :: rest) = c.utf8Size + byteLength rest := rfl

@[simp] theorem byteLength_append (left right : List Char) :
    byteLength (left ++ right) = byteLength left + byteLength right := by
  induction left with
  | nil => simp
  | cons c rest ih => simp [ih, Nat.add_assoc]

def replacement : Char := '\uFFFD'

/-- What is left of a character that occupies the bytes from `position` when only the bytes from
`start` up to `stop` are kept: each byte of a severed tail and each severed head become one
replacement character. -/
def keptOf (start stop position : Nat) (c : Char) : List Char :=
  let next := position + c.utf8Size
  if next ≤ start ∨ stop ≤ position then []
  else if position < start then List.replicate (min stop next - start) replacement
  else if stop < next then [replacement]
  else [c]

def sliceFrom (start stop : Nat) : Nat → List Char → List Char
  | _, [] => []
  | position, c :: rest =>
      keptOf start stop position c ++ sliceFrom start stop (position + c.utf8Size) rest

def slice (text : List Char) (start stop : Nat) : List Char :=
  sliceFrom start stop 0 text

def takeWhole : Nat → List Char → List Char
  | _, [] => []
  | bytes, c :: rest =>
      if c.utf8Size ≤ bytes then c :: takeWhole (bytes - c.utf8Size) rest else []

end EquationMap.Text
