namespace EquationMap.Text

abbrev Ranges := List (Nat × Nat)

namespace Ranges

def offsetOf? (code : Nat) : Ranges → Option Nat
  | [] => none
  | (first, last) :: rest =>
      if code < first then none
      else if code ≤ last then some (code - first)
      else offsetOf? code rest

def offset? (ranges : Ranges) (c : Char) : Option Nat :=
  offsetOf? c.toNat ranges

def contains (ranges : Ranges) (c : Char) : Bool :=
  (ranges.offset? c).isSome

end Ranges

end EquationMap.Text
