import EquationMap.Proofs.Tree.Parts
import EquationMap.Syntax.Token

namespace EquationMap

/-- The kinds of tokens that stand for something of their own in a formula, prime marks
apart. -/
def TokenKind.isAtom : TokenKind → Bool
  | text | ident | shorthand | string | escape | amp | linebreak | int | float | bool | none
  | auto => true
  | _ => false

/-- The kinds of tokens that are literals of code only. -/
def TokenKind.isLiteral : TokenKind → Bool
  | int | float | bool | none | auto => true
  | _ => false

/-- Whether a node is what an atom of a formula has to become: a leaf at its range with its
value, converted where it is a number or a truth value, or the name of an argument or of a
field. -/
def Represents (token : Token) : Node → Prop
  | .text written place =>
      (token.kind = .text ∨ token.kind = .escape) ∧ written = token.value ∧
        place.range = token.range
  | .mathIdent name place | .ident name place =>
      token.kind = .ident ∧ name = token.value ∧ place.range = token.range
  | .shorthand written symbol place =>
      token.kind = .shorthand ∧ written = token.value ∧ symbol = Token.symbolOf token.value ∧
        place.range = token.range
  | .str value place => token.kind = .string ∧ value = token.value ∧ place.range = token.range
  | .alignPoint place => token.kind = .amp ∧ place.range = token.range
  | .linebreak place => token.kind = .linebreak ∧ place.range = token.range
  | .int value place =>
      token.kind = .int ∧ Decimal.readInteger token.value = .ok value ∧
        place.range = token.range
  | .float value place =>
      token.kind = .float ∧ Decimal.readNumeral? token.value.toList = some value ∧
        place.range = token.range
  | .bool value place =>
      token.kind = .bool ∧ value = decide (token.value = "true") ∧ place.range = token.range
  | .noneLit place => token.kind = .none ∧ place.range = token.range
  | .autoLit place => token.kind = .auto ∧ place.range = token.range
  | .named name _ place =>
      (token.kind = .text ∨ token.kind = .ident) ∧ name = token.value ∧
        place.range.start = token.range.start
  | .field _ name place =>
      token.kind = .ident ∧ name = token.value ∧ place.range.stop = token.range.stop
  | _ => False

/-- Whether a node shows the source of a token as plain text. -/
def ShowsText (token : Token) : Node → Prop
  | .text written place => written = token.value ∧ place.range = token.range
  | _ => False

namespace TreePart

/-- Whether a part is a leaf. Prime marks and empty groups of code are none. -/
def isLeaf : TreePart → Bool
  | .node (.text _ _) | .node (.mathIdent _ _) | .node (.shorthand _ _ _)
  | .node (.alignPoint _) | .node (.linebreak _) | .node (.ident _ _) | .node (.int _ _)
  | .node (.float _ _) | .node (.str _ _) | .node (.bool _ _) | .node (.noneLit _)
  | .node (.autoLit _) => true
  | _ => false

def isText : TreePart → Bool
  | .node (.text _ _) => true
  | _ => false

def isNaming : TreePart → Bool
  | .node (.named _ _ _) | .node (.field _ _ _) => true
  | _ => false

def isPrimes : TreePart → Bool
  | .node (.primes _) => true
  | _ => false

/-- Whether a part lies at a token: as a leaf with its range, or with its name there. -/
def occupies (token : Token) : TreePart → Bool
  | .node (.named _ _ place) => place.range.start = token.range.start
  | .node (.field _ _ place) => place.range.stop = token.range.stop
  | part => part.isLeaf && part.range = token.range

/-- Whether a part is a run of prime marks around a token. -/
def isPrimesAround (token : Token) (part : TreePart) : Bool :=
  part.isPrimes && part.range.contains token.range

end TreePart

/-- Whether no literal of code is shown as text. -/
def LiteralsRead (tokens : List Token) (tree : Node) : Prop :=
  ∀ token ∈ tokens, token.kind.isLiteral = true →
    ∀ part ∈ tree.subtree, part.isText = true → part.range ≠ token.range

instance (tokens : List Token) (tree : Node) : Decidable (LiteralsRead tokens tree) := by
  unfold LiteralsRead
  infer_instance

/-- Every atom of a list of tokens stands in a tree once, as the given relation has it, every
prime mark lies in one run, which counts the marks in it, and nothing else is in the tree. -/
structure AtomsKept (Stands : Token → Node → Prop) (tokens : List Token) (tree : Node) :
    Prop where
  once : ∀ token ∈ tokens, token.kind.isAtom = true →
    ∃ node, tree.subtree.filter (TreePart.occupies token) = [.node node] ∧ Stands token node
  marked : ∀ token ∈ tokens, token.kind = .prime →
    ∃ run, tree.subtree.filter (TreePart.isPrimesAround token) = [.node (.primes run)]
  counted : ∀ run, .node (.primes run) ∈ tree.subtree → 0 < run.count ∧
    run.count = tokens.countP fun token =>
      token.kind = .prime && run.place.range.contains token.range
  grounded : ∀ node, .node node ∈ tree.subtree →
    (TreePart.node node).isLeaf || (TreePart.node node).isNaming →
    ∃ token ∈ tokens, Represents token node ∨ ShowsText token node

end EquationMap
