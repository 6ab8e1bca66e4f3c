import EquationMap.Geometry.Length
import EquationMap.Text.Letter

namespace EquationMap

inductive AtomClass where
  | ord | op | bin | rel | opening | closing | punct
  deriving DecidableEq

namespace AtomClass

def name : AtomClass → String
  | ord => "ORD" | op => "OP" | bin => "BIN" | rel => "REL" | opening => "OPEN"
  | closing => "CLOSE" | punct => "PUNCT"

def all : List AtomClass :=
  [ord, op, bin, rel, opening, closing, punct]

def characters : List (AtomClass × String) :=
  [(bin, "+−×·⋅÷±∓∗∘∧∨∩∪⊕⊗"),
   (rel, "=<>≤≥≠≈≔≡∼∝∈∉⊂⊃⊆⊇→←↔⇒⇔⟶⟵⟹⟸↦⤇≪≫:"),
   (opening, "([\x7b⟨⌊⌈⟦"),
   (closing, ")]\x7d⟩⌋⌉⟧"),
   (punct, ",;"),
   (op, "∑∏∐⋃⋂∫∬∭∮")]

def ofChar (c : Char) : AtomClass :=
  match characters.find? fun entry => entry.2.toList.contains c with
  | some (cls, _) => cls
  | none => ord

/-- The class of a text; only single characters have a class of their own. -/
def ofText (text : String) : AtomClass :=
  match text.toList with
  | [c] => ofChar c
  | _ => ord

def uprightLetters : List Char :=
  "ΑΒΓΔΕΖΗΘΙΚΛΜΝΞΟΠΡΣΤΥΦΧΨΩℝℕℤℚℂ∂∇∞".toList

/-- Whether a text is set in italics: a single letter is, with exceptions. -/
def isItalic (text : String) : Bool :=
  match text.toList with
  | [c] => Text.isLetter c && !uprightLetters.contains c
  | _ => false

def endsOperand : Option AtomClass → Bool
  | some ord | some closing => true
  | none | some bin | some op | some rel | some opening | some punct => false

def startsOperand : Option AtomClass → Bool
  | some ord | some op | some opening | some bin => true
  | none | some rel | some closing | some punct => false

/-- Makes binary operators without operands on both sides ordinary. What stands before an
operator is judged as mended, what follows it as given. -/
def fixBinaries (previous : Option AtomClass) : List AtomClass → List AtomClass
  | [] => []
  | cls :: rest =>
      let fixed :=
        if cls = bin ∧ ¬(endsOperand previous ∧ startsOperand rest.head?) then ord else cls
      fixed :: fixBinaries (some fixed) rest

variable {α : Type} [Length α]

def spacing (left right : AtomClass) (script : Bool) : α :=
  if left = bin ∨ right = bin then (if script then 0.0 else 4.0)
  else if left = rel ∨ right = rel then
    (if left = right ∨ script then 0.0 else 5.0)
  else if left = op ∧ right ≠ opening then 3.0
  else if right = op ∧ left ≠ opening then 3.0
  else if left = punct ∧ ¬script then 3.0
  else 0.0

def spacings (classes : List AtomClass) (script : Bool) : List α :=
  (classes.zip classes.tail).map fun (left, right) => spacing left right script

end AtomClass

end EquationMap
