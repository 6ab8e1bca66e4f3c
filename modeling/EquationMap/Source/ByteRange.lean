import EquationMap.Decimal.Count

namespace EquationMap

/-- A half-open interval of byte offsets into a text. -/
structure ByteRange where
  start : Nat
  stop : Nat
  ordered : start ≤ stop := by omega
  deriving DecidableEq

namespace ByteRange

def ofLength (start length : Nat) : ByteRange :=
  ⟨start, start + length, Nat.le_add_right start length⟩

def empty (offset : Nat) : ByteRange :=
  ⟨offset, offset, Nat.le_refl offset⟩

/-- The range between two offsets; it is empty at the first one if the second lies before. -/
def between (start stop : Nat) : ByteRange :=
  ⟨start, max start stop, Nat.le_max_left start stop⟩

def cover (first last : ByteRange) : ByteRange :=
  between first.start last.stop

def length (range : ByteRange) : Nat :=
  range.stop - range.start

def contains (outer inner : ByteRange) : Bool :=
  outer.start ≤ inner.start && inner.stop ≤ outer.stop

def touches (range : ByteRange) (offset : Nat) : Bool :=
  range.start ≤ offset && offset ≤ range.stop

end ByteRange

/-- The range between two offsets, unless they are negative or in the wrong order. -/
def ByteRange.ofOffsets (start stop : Int) : Except NumberFault ByteRange :=
  match start, stop with
  | .ofNat first, .ofNat last =>
      if ordered : first ≤ last then .ok ⟨first, last, ordered⟩
      else .error (.invalidRange start stop)
  | _, _ => .error (.invalidRange start stop)

/-- The length of a range as a count that an index can hold. -/
def ByteRange.indexedLength (range : ByteRange) : Except NumberFault Nat :=
  Count.ofInt range.length

def ByteRange.toText (range : ByteRange) : String :=
  "[" ++ toString range.start ++ ", " ++ toString range.stop ++ ")"

end EquationMap
