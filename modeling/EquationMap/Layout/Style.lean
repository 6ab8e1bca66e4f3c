import EquationMap.Frame.Basic

namespace EquationMap

inductive MathSize where
  | display | text | script | scriptScript
  deriving DecidableEq

namespace MathSize

def name : MathSize → String
  | display => "display" | text => "text" | script => "script"
  | scriptScript => "script-script"

def all : List MathSize := [display, text, script, scriptScript]

def ofName? (name : String) : Option MathSize :=
  all.find? fun size => size.name = name

def scale [Length α] : MathSize → α
  | display | text => 1.0
  | script => 0.7
  | scriptScript => 0.5

def ofScript : MathSize → MathSize
  | display | text => script
  | script | scriptScript => scriptScript

def ofFraction : MathSize → MathSize
  | display => text
  | text => script
  | script | scriptScript => scriptScript

def isScript : MathSize → Bool
  | display | text => false
  | script | scriptScript => true

end MathSize

structure Styles (α : Type) where
  families : List String
  weight : Int
  textSize : α
  fill : Option Color
  mathSize : MathSize
  upright : Bool

def Styles.standard [Length α] : Styles α :=
  { families := ["New Computer Modern Math"], weight := 450, textSize := 11.0,
    fill := some .white, mathSize := .display, upright := false }

def Styles.fontSize [Length α] (styles : Styles α) : α :=
  styles.textSize * styles.mathSize.scale

/-- Settings of some styles. A fill may be set to none. -/
structure StyleLayer (α : Type) where
  families : Option (List String) := none
  weight : Option Int := none
  textSize : Option α := none
  fill : Option (Option Color) := none
  mathSize : Option MathSize := none
  upright : Option Bool := none

def Styles.toLayer (styles : Styles α) : StyleLayer α :=
  { families := some styles.families, weight := some styles.weight
    textSize := some styles.textSize, fill := some styles.fill
    mathSize := some styles.mathSize, upright := some styles.upright }

inductive StyleKey where
  | families | weight | textSize | fill | mathSize | upright
  deriving DecidableEq

def StyleKey.name : StyleKey → String
  | families => "FONT_FAMILIES" | weight => "FONT_WEIGHT" | textSize => "TEXT_SIZE"
  | fill => "FILL" | mathSize => "MATH_SIZE" | upright => "UPRIGHT"

abbrev StyleChain (α : Type) := List (StyleLayer α)

namespace StyleChain

/-- The innermost setting of a style, or the style that is missing. -/
def get (chain : StyleChain α) (key : StyleKey) (setting : StyleLayer α → Option β) :
    Except StyleKey β :=
  match chain.findSome? setting with
  | some value => .ok value
  | none => .error key

def resolve (chain : StyleChain α) : Except StyleKey (Styles α) := do
  let families ← chain.get .families StyleLayer.families
  let weight ← chain.get .weight StyleLayer.weight
  let textSize ← chain.get .textSize StyleLayer.textSize
  let fill ← chain.get .fill StyleLayer.fill
  let mathSize ← chain.get .mathSize StyleLayer.mathSize
  let upright ← chain.get .upright StyleLayer.upright
  return { families, weight, textSize, fill, mathSize, upright }

@[simp] theorem resolve_toLayer (styles : Styles α) : resolve [styles.toLayer] = .ok styles :=
  rfl

end StyleChain

end EquationMap
