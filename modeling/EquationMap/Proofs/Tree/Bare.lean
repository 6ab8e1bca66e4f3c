import EquationMap.Proofs.Tree.Numbering

namespace EquationMap

def Place.bare (place : Place) : Place :=
  ⟨.empty 0, place.span⟩

theorem Place.bare_withSpan (place : Place) (span : Span) :
    (place.withSpan span).bare = place.bare.withSpan span :=
  rfl

def Delimiter.bare (delimiter : Delimiter) : Delimiter :=
  ⟨delimiter.text, delimiter.place.bare⟩

def Primes.bare (primes : Primes) : Primes :=
  ⟨primes.count, primes.place.bare⟩

namespace Node

mutual

/-- The tree with every range replaced by the empty one at the start of the text. -/
def bare : Node → Node
  | math exprs place => math (bareList exprs) place.bare
  | text written place => text written place.bare
  | mathIdent name place => mathIdent name place.bare
  | shorthand written symbol place => shorthand written symbol place.bare
  | alignPoint place => alignPoint place.bare
  | linebreak place => linebreak place.bare
  | delimited opening body bodyPlace closing place =>
      delimited opening.bare (bareList body) bodyPlace.bare closing.bare place.bare
  | primes marks => primes marks.bare
  | attach base bottom top marks place =>
      attach base.bare (bareOption bottom) (bareOption top) (marks.map Primes.bare) place.bare
  | frac num denom place => frac num.bare denom.bare place.bare
  | root degree radicand place => root degree radicand.bare place.bare
  | ident name place => ident name place.bare
  | int value place => int value place.bare
  | float value place => float value place.bare
  | str value place => str value place.bare
  | bool value place => bool value place.bare
  | noneLit place => noneLit place.bare
  | autoLit place => autoLit place.bare
  | parenthesized expr place => parenthesized expr.bare place.bare
  | named name expr place => named name expr.bare place.bare
  | keyed key expr place => keyed key.bare expr.bare place.bare
  | spread expr place => spread expr.bare place.bare
  | array items place => array (bareList items) place.bare
  | dict items place => dict (bareList items) place.bare
  | contentBlock body bodyPlace place =>
      contentBlock (bareList body) bodyPlace.bare place.bare
  | call callee args argsPlace place =>
      call callee.bare (bareList args) argsPlace.bare place.bare
  | field target name place => field target.bare name place.bare
  | binary lhs op rhs place => binary lhs.bare op rhs.bare place.bare
  | unary op expr place => unary op expr.bare place.bare

def bareList : List Node → List Node
  | [] => []
  | node :: rest => node.bare :: bareList rest

def bareOption : Option Node → Option Node
  | none => none
  | some node => some node.bare

end

@[simp]
theorem bareList_eq (nodes : List Node) : bareList nodes = nodes.map bare := by
  induction nodes with
  | nil => rfl
  | cons node rest induction => rw [bareList, induction, List.map_cons]

@[simp]
theorem bareOption_eq (node : Option Node) : bareOption node = node.map bare := by
  cases node <;> rfl

@[simp]
theorem range_bare (node : Node) : node.bare.range = .empty 0 := by
  cases node <;> rfl

@[simp]
theorem span_bare (node : Node) : node.bare.span = node.span := by
  cases node <;> rfl

mutual

theorem places_bare : ∀ node : Node, node.bare.places = node.places.map Place.bare
  | .math exprs _ | .array exprs _ | .dict exprs _ | .delimited _ exprs _ _ _
  | .contentBlock exprs _ _ => by
      simp [bare, places, placesOfList_bare exprs, Delimiter.bare]
  | .attach base bottom top marks _ => by
      cases marks <;>
        simp [bare, places, places_bare base, placesOfOption_bare bottom,
          placesOfOption_bare top, Primes.bare]
  | .frac left right _ | .keyed left right _ | .binary left _ right _ => by
      simp [bare, places, places_bare left, places_bare right]
  | .root _ expr _ | .parenthesized expr _ | .named _ expr _ | .spread expr _
  | .unary _ expr _ | .field expr _ _ => by
      simp [bare, places, places_bare expr]
  | .call callee args _ _ => by
      simp [bare, places, places_bare callee, placesOfList_bare args]
  | .primes _ | .text _ _ | .mathIdent _ _ | .shorthand _ _ _ | .alignPoint _ | .linebreak _
  | .ident _ _ | .int _ _ | .float _ _ | .str _ _ | .bool _ _ | .noneLit _ | .autoLit _ => rfl

theorem placesOfList_bare : ∀ nodes : List Node,
    placesOfList (nodes.map bare) = (placesOfList nodes).map Place.bare
  | [] => rfl
  | node :: rest => by
      simp [placesOfList, places_bare node, placesOfList_bare rest]

theorem placesOfOption_bare : ∀ node : Option Node,
    placesOfOption (node.map bare) = (placesOfOption node).map Place.bare
  | none => rfl
  | some node => by simp [placesOfOption, places_bare node]

end

@[simp]
theorem size_bare (node : Node) : node.bare.size = node.size := by
  rw [size_eq, size_eq, places_bare, List.length_map]

@[simp]
theorem sizeOfList_bare (nodes : List Node) : sizeOfList (nodes.map bare) = sizeOfList nodes := by
  rw [sizeOfList_eq, sizeOfList_eq, placesOfList_bare, List.length_map]

@[simp]
theorem sizeOfOption_bare (node : Option Node) :
    sizeOfOption (node.map bare) = sizeOfOption node := by
  rw [sizeOfOption_eq, sizeOfOption_eq, placesOfOption_bare, List.length_map]

variable (spans : Nat → Span)

mutual

theorem respan_bare : ∀ (index : Nat) (node : Node),
    (node.respan spans index).bare = node.bare.respan spans index
  | _, .math exprs _ | _, .array exprs _ | _, .dict exprs _ | _, .delimited _ exprs _ _ _
  | _, .contentBlock exprs _ _ => by
      simp [bare, respan, map_bare_respanList _ exprs, Delimiter.bare, Place.bare_withSpan]
  | _, .attach base bottom top marks _ => by
      cases marks <;>
        simp [bare, respan, respan_bare _ base, map_bare_respanOption _ bottom,
          map_bare_respanOption _ top, Primes.bare, Place.bare_withSpan]
  | _, .frac left right _ | _, .keyed left right _ | _, .binary left _ right _ => by
      simp [bare, respan, respan_bare _ left, respan_bare _ right, Place.bare_withSpan]
  | _, .root _ expr _ | _, .parenthesized expr _ | _, .named _ expr _ | _, .spread expr _
  | _, .unary _ expr _ | _, .field expr _ _ => by
      simp [bare, respan, respan_bare _ expr, Place.bare_withSpan]
  | _, .call callee args _ _ => by
      simp [bare, respan, respan_bare _ callee, map_bare_respanList _ args, Place.bare_withSpan]
  | _, .primes _ | _, .text _ _ | _, .mathIdent _ _ | _, .shorthand _ _ _ | _, .alignPoint _
  | _, .linebreak _ | _, .ident _ _ | _, .int _ _ | _, .float _ _ | _, .str _ _ | _, .bool _ _
  | _, .noneLit _ | _, .autoLit _ => rfl

theorem map_bare_respanList : ∀ (index : Nat) (nodes : List Node),
    (respanList spans index nodes).map bare = respanList spans index (nodes.map bare)
  | _, [] => rfl
  | index, node :: rest => by
      simp [respanList, respan_bare index node, map_bare_respanList _ rest]

theorem map_bare_respanOption : ∀ (index : Nat) (node : Option Node),
    (respanOption spans index node).map bare = respanOption spans index (node.map bare)
  | _, none => rfl
  | index, some node => congrArg some (respan_bare index node)

end

end Node

def Formula.bare (formula : Formula) : Formula :=
  ⟨formula.exprs.map Node.bare, formula.place.bare⟩

theorem Formula.number_bare (formula : Formula) (file : String) (numbers : SpanNumbers) :
    (formula.bare.number file numbers).map Prod.fst =
      (formula.number file numbers).map fun numbered => numbered.1.bare := by
  have counted : formula.bare.node.places.length = formula.node.places.length := by
    have same : formula.bare.node = formula.node.bare := by
      simp [Formula.node, Formula.bare, Node.bare]
    rw [same, Node.places_bare, List.length_map]
  unfold Formula.number
  dsimp only
  rw [counted]
  by_cases noStep : numbers.step = 0
  · simp only [if_pos noStep, Except.map]
  · by_cases tooFew : numbers.count < formula.node.places.length
    · simp only [if_neg noStep, if_pos tooFew, Except.map]
    · simp [if_neg noStep, if_neg tooFew, Except.map, Formula.bare, Node.map_bare_respanList,
        Place.bare_withSpan]

end EquationMap
