namespace EquationMap

/-- Quantities that lengths are measured in: binary floating point numbers when formulas are
rendered, exact fractions when placements are reasoned about. -/
class Length (α : Type) extends
    Add α, Sub α, Mul α, Div α, Neg α, OfScientific α, BEq α where
  less : α → α → Bool

instance : Length Float where
  less a b := decide (a < b)

instance : Length Rat where
  less a b := decide (a < b)

namespace Length

variable {α : Type} [Length α]

def ofNat (n : Nat) : α :=
  OfScientific.ofScientific n false 0

def max (a b : α) : α :=
  if less a b then b else a

def min (a b : α) : α :=
  if less b a then b else a

def sum (lengths : List α) : α :=
  lengths.foldl (· + ·) 0.0

def maximum (default : α) : List α → α
  | [] => default
  | first :: rest => rest.foldl max first

end Length

end EquationMap
