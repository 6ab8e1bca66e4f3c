import EquationMap.Source.ByteRange
import EquationMap.Text.Utf8

namespace EquationMap.Editor

structure Position where
  line : Nat
  character : Nat
  deriving DecidableEq

def units (c : Char) : Nat :=
  if c.toNat < 0x10000 then 1 else 2

namespace Position

def start : Position := ⟨0, 0⟩

def next (position : Position) (c : Char) : Position :=
  if c = '\n' then ⟨position.line + 1, 0⟩
  else ⟨position.line, position.character + units c⟩

def advance (position : Position) (text : List Char) : Position :=
  text.foldl next position

/-- The position of a byte offset. An offset inside a character counts as the start of the
character, and one outside the text as its nearest end. -/
def ofOffset (text : String) (offset : Int) : Position :=
  start.advance (Text.takeWhole offset.toNat text.toList)

end Position

/-- The bytes of the least whole number of characters that reach a column of the first line;
all of the line if it ends before. -/
def columnOffset (character : Nat) : List Char → Nat
  | [] => 0
  | c :: rest =>
      if character = 0 ∨ c = '\n' then 0
      else c.utf8Size + columnOffset (character - units c) rest

/-- The byte offset of a column of a line. A line past the last one ends with the text. -/
def offsetOf : Nat → Nat → List Char → Nat
  | 0, character, text => columnOffset character text
  | _ + 1, _, [] => 0
  | line + 1, character, c :: rest =>
      c.utf8Size +
        if c = '\n' then offsetOf line character rest else offsetOf (line + 1) character rest

def Position.offset (text : String) (position : Position) : Nat :=
  offsetOf position.line position.character text.toList

structure Selection where
  start : Position
  stop : Position
  deriving DecidableEq

namespace Selection

def ofRange (text : String) (range : ByteRange) : Selection :=
  ⟨.ofOffset text range.start, .ofOffset text range.stop⟩

def whole (text : String) : Selection :=
  ofRange text (.ofLength 0 (Text.byteLength text.toList))

end Selection

end EquationMap.Editor
