import EquationMap.Geometry.Length

namespace EquationMap

abbrev Coverage := List (Nat × Nat)

section

variable {α : Type} [Length α]

/-- Characters of equal width. No character is in two groups. -/
def FontFace.advanceGroups : List (String × α) :=
  [("0123456789", 0.5),
   ("abcdeghknopqsuvxyz", 0.5),
   ("fijlrt", 0.33),
   ("mw", 0.78),
   ("ABCDEFGHIJKLNOPQRSTUVXYZ", 0.72),
   ("MW", 0.92),
   (" ", 0.33),
   (".,;:!'`", 0.28),
   ("()[]\x7b\x7d|‖⌊⌋⌈⌉⟨⟩⟦⟧", 0.39),
   ("+−=<>×÷±∓·⋅∗≤≥≠≈≔≡∼∈∉⊂⊃⊆⊇∝∧∨∩∪", 0.78),
   ("→←↔⇒⇔↦⤇", 1.0),
   ("⟶⟵⟹⟸", 1.6),
   ("∑∏∐⋃⋂", 1.05),
   ("∫∬∭∮", 0.56),
   ("√∛∜", 0.83),
   ("∞", 1.0),
   ("…", 1.17),
   ("′″‴", 0.28)]

def FontFace.defaultAdvances : List (Char × α) :=
  advanceGroups.flatMap fun (characters, width) => characters.toList.map fun c => (c, width)

end

/-- The metrics of a face in units of the text size, measured upwards from the baseline. -/
structure FontFace (α : Type) [Length α] where
  family : String
  weight : Int
  style : String := "normal"
  ascender : α := 0.75
  descender : α := -0.25
  axisHeight : α := 0.25
  ruleThickness : α := 0.04
  defaultAdvance : α := 0.55
  coverage : Coverage
  advances : List (Char × α) := FontFace.defaultAdvances

namespace FontFace

def mathCoverage : Coverage :=
  [(0x0020, 0x007E), (0x00A0, 0x024F), (0x0370, 0x03FF), (0x2000, 0x206F), (0x2070, 0x209F),
   (0x2100, 0x214F), (0x2190, 0x21FF), (0x2200, 0x22FF), (0x2300, 0x23FF), (0x25A0, 0x25FF),
   (0x27C0, 0x27FF), (0x2900, 0x2AFF), (0x1D400, 0x1D7FF)]

def textCoverage : Coverage :=
  [(0x0020, 0x007E), (0x00A0, 0x024F), (0x0370, 0x03FF), (0x2000, 0x206F)]

variable {α : Type} [Length α]

def covers (face : FontFace α) (c : Char) : Bool :=
  face.coverage.any fun (first, last) => first ≤ c.toNat && c.toNat ≤ last

def advance (face : FontFace α) (c : Char) : α :=
  (face.advances.lookup c).getD face.defaultAdvance

def catalog : List (FontFace α) :=
  [{ family := "New Computer Modern Math", weight := 400, coverage := mathCoverage },
   { family := "New Computer Modern", weight := 400, coverage := textCoverage },
   { family := "New Computer Modern", weight := 700, coverage := textCoverage },
   { family := "New Computer Modern", weight := 400, style := "italic",
     coverage := textCoverage }]

def families (faces : List (FontFace α)) : List String :=
  (faces.map FontFace.family).eraseDups

/-- Whether a face suits a weight strictly better than another: upright faces come first,
then those closest in weight. -/
def suitsBetter (weight : Int) (a b : FontFace α) : Bool :=
  let slanted (face : FontFace α) : Bool := face.style ≠ "normal"
  if slanted a = slanted b then
    (a.weight - weight).natAbs < (b.weight - weight).natAbs
  else slanted b

def best? (weight : Int) : List (FontFace α) → Option (FontFace α)
  | [] => none
  | first :: rest =>
      some (rest.foldl (fun best face => if suitsBetter weight face best then face else best)
        first)

def select (faces : List (FontFace α)) (families : List String) (weight : Int) :
    List (FontFace α) :=
  families.filterMap fun family => best? weight (faces.filter fun face => face.family = family)

def find? (faces : List (FontFace α)) (c : Char) : Option (FontFace α) :=
  faces.find? fun face => face.covers c

end FontFace

end EquationMap
