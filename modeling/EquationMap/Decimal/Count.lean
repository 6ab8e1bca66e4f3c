import EquationMap.Decimal.Fault

namespace EquationMap.Count

/-! Counts of items, and repetitions by a count. Nothing is known of how much can really be
held; what an index cannot count the bytes of cannot. -/

def indexLimit : Nat := Nat.pow 2 63

/-- A count as an index, if an index can hold it; a negative count stands for none. -/
def ofInt (count : Int) : Except NumberFault Nat :=
  if count < -(indexLimit : Int) ∨ (indexLimit : Int) ≤ count then .error .countTooLarge
  else .ok count.toNat

def heldItems (count : Nat) : Except NumberFault Nat :=
  if indexLimit ≤ count * 8 then .error .outOfMemory else .ok count

/-- A text takes the same number of bytes for each character and for the end, after a header
that is shorter if all characters are in ASCII. -/
def heldCharacters (text : List Char) (count : Nat) : Except NumberFault Nat :=
  let fits (bound : Nat) : Bool := text.all fun c => c.toNat < bound
  let header := if fits 128 then 48 else 72
  let width := if fits 256 then 1 else if fits 65536 then 2 else 4
  if indexLimit ≤ header + width * (count + 1) then .error .outOfMemory else .ok count

def repeatList (items : List α) (count : Int) : Except NumberFault (List α) := do
  let count ← ofInt count
  if items.isEmpty then return []
  else
    let _ ← heldItems (count * items.length)
    return (List.replicate count items).flatten

def repeatText (text : String) (count : Int) : Except NumberFault String := do
  let count ← ofInt count
  if text.isEmpty then return ""
  else if indexLimit ≤ count * text.length then .error .repetitionTooLong
  else
    let _ ← heldCharacters text.toList (count * text.length)
    return String.ofList (List.replicate count text.toList).flatten

end EquationMap.Count
