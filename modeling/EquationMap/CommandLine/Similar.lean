namespace EquationMap.CommandLine

/-! Words that resemble a mistyped one. Two words resemble each other if common runs of
characters make up three fifths of them; the runs are found longest first, and the parts
before and behind a run are compared in turn. -/

def commonLength : List Char → List Char → Nat
  | a :: left, b :: right => if a = b then commonLength left right + 1 else 0
  | _, _ => 0

/-- The longest common run that begins at the head of the left word: where it begins in the
right word, counted from the given place, and its length. The first one wins. -/
def longestAtHead (left : List Char) : Nat → List Char → Nat × Nat
  | place, [] => (place, 0)
  | place, b :: right =>
      let here := commonLength left (b :: right)
      let later := longestAtHead left (place + 1) right
      if later.2 ≤ here then (place, here) else later

/-- The longest common run of two words: where it begins in the left word, counted from the
given place, where in the right one, and its length. The first one wins. -/
def longestRun : Nat → List Char → List Char → Nat × Nat × Nat
  | place, [], _ => (place, 0, 0)
  | place, a :: left, right =>
      let (start, here) := longestAtHead (a :: left) 0 right
      let later := longestRun (place + 1) left right
      if later.2.2 ≤ here then (place, start, here) else later

def commonCount : Nat → List Char → List Char → Nat
  | 0, _, _ => 0
  | fuel + 1, left, right =>
      let (first, second, length) := longestRun 0 left right
      if length = 0 then 0
      else
        length + commonCount fuel (left.take first) (right.take second) +
          commonCount fuel (left.drop (first + length)) (right.drop (second + length))

/-- A word with the part of it, and of the mistyped word, that is common to both. -/
structure Resemblance where
  word : String
  common : Nat
  total : Nat

namespace Resemblance

def of (mistyped word : String) : Resemblance :=
  let total := word.length + mistyped.length
  ⟨word, commonCount total word.toList mistyped.toList, total⟩

def isClose (resemblance : Resemblance) : Bool :=
  3 * resemblance.total ≤ 10 * resemblance.common

/-- Whether one word comes before another: it has more in common, or else is the greater. -/
def precedes (first second : Resemblance) : Bool :=
  let left := first.common * second.total
  let right := second.common * first.total
  right < left || (left == right && second.word ≤ first.word)

end Resemblance

def similarWords (mistyped : String) (words : List String) : List String :=
  let close := (words.map (Resemblance.of mistyped)).filter Resemblance.isClose
  ((close.mergeSort Resemblance.precedes).take 3).map Resemblance.word

end EquationMap.CommandLine
