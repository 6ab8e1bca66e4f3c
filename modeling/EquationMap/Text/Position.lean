import EquationMap.Text.Utf8

namespace EquationMap.Text

/-! Lines and columns counted from one. A column counts characters, and a line ends with a
newline character. -/

structure LineColumn where
  line : Nat
  column : Nat
  deriving DecidableEq, Repr

def LineColumn.advance (place : LineColumn) : Nat → List Char → LineColumn
  | _, [] => place
  | 0, _ :: _ => place
  | bytes + 1, c :: rest =>
      let next : LineColumn :=
        if c = '\n' then ⟨place.line + 1, 1⟩ else ⟨place.line, place.column + 1⟩
      next.advance (bytes + 1 - c.utf8Size) rest

/-- The line and column of a byte offset; offsets outside the text count as its nearest end. -/
def lineColumn (text : String) (offset : Int) : LineColumn :=
  LineColumn.advance ⟨1, 1⟩ offset.toNat text.toList

end EquationMap.Text
