import EquationMap.Proofs.Tree.Laminar
import EquationMap.Syntax.Numbering

namespace EquationMap

namespace Node

mutual

theorem size_eq : ∀ node : Node, node.size = node.places.length
  | .math exprs place => by
      simp only [size, places, List.length_cons, sizeOfList_eq exprs]
      omega
  | .delimited opening body bodyPlace closing place => by
      simp only [size, places, List.length_cons, List.length_append, sizeOfList_eq body,
        List.length_nil]
      omega
  | .attach base bottom top marks place => by
      simp only [size, places, List.length_cons, List.length_append, size_eq base,
        sizeOfOption_eq bottom, sizeOfOption_eq top]
      cases marks <;> simp <;> omega
  | .frac num denom place | .keyed num denom place | .binary num _ denom place => by
      simp only [size, places, List.length_cons, List.length_append, size_eq num, size_eq denom]
      omega
  | .root _ expr place | .parenthesized expr place | .named _ expr place | .spread expr place
  | .unary _ expr place | .field expr _ place => by
      simp only [size, places, List.length_cons, size_eq expr]
      omega
  | .array items place | .dict items place => by
      simp only [size, places, List.length_cons, sizeOfList_eq items]
      omega
  | .contentBlock body bodyPlace place => by
      simp only [size, places, List.length_cons, sizeOfList_eq body]
      omega
  | .call callee args argsPlace place => by
      simp only [size, places, List.length_cons, List.length_append, size_eq callee,
        sizeOfList_eq args]
      omega
  | .primes _ | .text _ _ | .mathIdent _ _ | .shorthand _ _ _ | .alignPoint _ | .linebreak _
  | .ident _ _ | .int _ _ | .float _ _ | .str _ _ | .bool _ _ | .noneLit _ | .autoLit _ => rfl

theorem sizeOfList_eq : ∀ nodes : List Node, sizeOfList nodes = (placesOfList nodes).length
  | [] => rfl
  | node :: rest => by
      simp only [sizeOfList, placesOfList, List.length_append, size_eq node, sizeOfList_eq rest]

theorem sizeOfOption_eq : ∀ node : Option Node,
    sizeOfOption node = (placesOfOption node).length
  | none => rfl
  | some node => size_eq node

end

variable (spans : Nat → Span)

@[simp]
theorem range_respan (index : Nat) (node : Node) :
    (node.respan spans index).range = node.range := by
  cases node <;> rfl

def numberedPlaces (index : Nat) (places : List Place) : List Place :=
  (places.zipIdx index).map fun (place, number) => place.withSpan (spans number)

@[simp]
theorem numberedPlaces_nil (index : Nat) : numberedPlaces spans index [] = [] :=
  rfl

@[simp]
theorem numberedPlaces_cons (index : Nat) (place : Place) (rest : List Place) :
    numberedPlaces spans index (place :: rest) =
      place.withSpan (spans index) :: numberedPlaces spans (index + 1) rest :=
  rfl

@[simp]
theorem numberedPlaces_append (index : Nat) (left right : List Place) :
    numberedPlaces spans index (left ++ right) =
      numberedPlaces spans index left ++ numberedPlaces spans (index + left.length) right := by
  simp [numberedPlaces, List.zipIdx_append]

mutual

theorem places_respan : ∀ (index : Nat) (node : Node),
    (node.respan spans index).places = numberedPlaces spans index node.places
  | index, .math exprs place => by
      simp [respan, places, placesOfList_respan (index + 1) exprs]
  | index, .delimited opening body bodyPlace closing place => by
      simp [respan, places, placesOfList_respan _ body, sizeOfList_eq]
  | index, .attach base bottom top marks place => by
      cases marks <;>
        simp [respan, places, places_respan _ base, placesOfOption_respan _ bottom,
          placesOfOption_respan _ top, size_eq, sizeOfOption_eq, Nat.add_assoc]
  | index, .frac num denom place | index, .keyed num denom place
  | index, .binary num _ denom place => by
      simp [respan, places, places_respan _ num, places_respan _ denom, size_eq]
  | index, .root _ expr place | index, .parenthesized expr place | index, .named _ expr place
  | index, .spread expr place | index, .unary _ expr place | index, .field expr _ place => by
      simp [respan, places, places_respan _ expr]
  | index, .array items place | index, .dict items place => by
      simp [respan, places, placesOfList_respan _ items]
  | index, .contentBlock body bodyPlace place => by
      simp [respan, places, placesOfList_respan _ body]
  | index, .call callee args argsPlace place => by
      simp [respan, places, places_respan _ callee, placesOfList_respan _ args, size_eq]
  | _, .primes _ | _, .text _ _ | _, .mathIdent _ _ | _, .shorthand _ _ _ | _, .alignPoint _
  | _, .linebreak _ | _, .ident _ _ | _, .int _ _ | _, .float _ _ | _, .str _ _
  | _, .bool _ _ | _, .noneLit _ | _, .autoLit _ => rfl

theorem placesOfList_respan : ∀ (index : Nat) (nodes : List Node),
    placesOfList (respanList spans index nodes) =
      numberedPlaces spans index (placesOfList nodes)
  | _, [] => rfl
  | index, node :: rest => by
      simp [respanList, placesOfList, places_respan index node, placesOfList_respan _ rest,
        size_eq]

theorem placesOfOption_respan : ∀ (index : Nat) (node : Option Node),
    placesOfOption (respanOption spans index node) =
      numberedPlaces spans index (placesOfOption node)
  | _, none => rfl
  | index, some node => places_respan index node

end

mutual

theorem places_eq : ∀ node : Node, node.places = node.subtree.map TreePart.place
  | .math exprs place => by
      simp [places, subtree, placesOfList_eq exprs, TreePart.place, Node.place]
  | .delimited opening body bodyPlace closing place => by
      simp [places, subtree, placesOfList_eq body, TreePart.place, Node.place, Delimiter.node]
  | .attach base bottom top marks place => by
      cases marks <;>
        simp [places, subtree, places_eq base, placesOfOption_eq bottom, placesOfOption_eq top,
          TreePart.place, Node.place]
  | .frac num denom place | .keyed num denom place | .binary num _ denom place => by
      simp [places, subtree, places_eq num, places_eq denom, TreePart.place, Node.place]
  | .root _ expr place | .parenthesized expr place | .named _ expr place | .spread expr place
  | .unary _ expr place | .field expr _ place => by
      simp [places, subtree, places_eq expr, TreePart.place, Node.place]
  | .array items place | .dict items place => by
      simp [places, subtree, placesOfList_eq items, TreePart.place, Node.place]
  | .contentBlock body bodyPlace place => by
      simp [places, subtree, placesOfList_eq body, TreePart.place, Node.place]
  | .call callee args argsPlace place => by
      simp [places, subtree, places_eq callee, placesOfList_eq args, TreePart.place, Node.place]
  | .primes _ | .text _ _ | .mathIdent _ _ | .shorthand _ _ _ | .alignPoint _ | .linebreak _
  | .ident _ _ | .int _ _ | .float _ _ | .str _ _ | .bool _ _ | .noneLit _ | .autoLit _ => rfl

theorem placesOfList_eq : ∀ nodes : List Node,
    placesOfList nodes = (subtreeOfList nodes).map TreePart.place
  | [] => rfl
  | node :: rest => by
      simp [placesOfList, subtreeOfList, places_eq node, placesOfList_eq rest]

theorem placesOfOption_eq : ∀ node : Option Node,
    placesOfOption node = (subtreeOfOption node).map TreePart.place
  | none => rfl
  | some node => places_eq node

end

theorem mem_respanList {index : Nat} {nodes : List Node} {inner : Node}
    (member : inner ∈ respanList spans index nodes) :
    ∃ node ∈ nodes, ∃ number, inner = node.respan spans number := by
  induction nodes generalizing index with
  | nil => cases member
  | cons node rest ih =>
      rcases List.mem_cons.mp member with rfl | later
      · exact ⟨node, List.mem_cons_self, index, rfl⟩
      · obtain ⟨found, inRest, number, same⟩ := ih later
        exact ⟨found, List.mem_cons_of_mem _ inRest, number, same⟩

theorem unspread_respan (index : Nat) (item : Node) :
    ∃ number, (item.respan spans index).unspread = item.unspread.respan spans number := by
  cases item with
  | spread expr place => exact ⟨index + 1, rfl⟩
  | _ => exact ⟨index, rfl⟩

theorem pairExprs_respan {index : Nat} {item inner : Node}
    (member : inner ∈ (item.respan spans index).pairExprs) :
    ∃ expr ∈ item.pairExprs, ∃ number, inner = expr.respan spans number := by
  cases item with
  | keyed key expr place =>
      rcases List.mem_cons.mp member with rfl | isExpr
      · exact ⟨key, List.mem_cons_self, _, rfl⟩
      · rw [List.mem_singleton.mp isExpr]
        exact ⟨expr, by simp [pairExprs], _, rfl⟩
  | named name expr place =>
      rw [List.mem_singleton.mp member]
      exact ⟨expr, List.mem_cons_self, _, rfl⟩
  | spread expr place =>
      rw [List.mem_singleton.mp member]
      exact ⟨expr, List.mem_cons_self, _, rfl⟩
  | _ => cases member

theorem isPositional_respan (index : Nat) (node : Node) :
    (node.respan spans index).isPositional = node.isPositional := by
  cases node <;> rfl

theorem subexpressions_respan {index : Nat} {node inner : Node}
    (member : inner ∈ (node.respan spans index).subexpressions) :
    ∃ expr ∈ node.subexpressions, ∃ number, inner = expr.respan spans number := by
  cases node with
  | math exprs place => exact mem_respanList spans member
  | delimited opening body bodyPlace closing place => exact mem_respanList spans member
  | contentBlock body bodyPlace place => exact mem_respanList spans member
  | array items place =>
      obtain ⟨item, isItem, rfl⟩ := List.mem_map.mp member
      obtain ⟨found, isFound, number, rfl⟩ := mem_respanList spans isItem
      exact ⟨found.unspread, List.mem_map_of_mem isFound, unspread_respan spans number found⟩
  | dict items place =>
      obtain ⟨item, isItem, inPair⟩ := List.mem_flatMap.mp member
      obtain ⟨found, isFound, number, rfl⟩ := mem_respanList spans isItem
      obtain ⟨expr, isExpr, same⟩ := pairExprs_respan spans inPair
      exact ⟨expr, List.mem_flatMap.mpr ⟨found, isFound, isExpr⟩, same⟩
  | call callee args argsPlace place =>
      rcases List.mem_cons.mp member with rfl | isArg
      · exact ⟨callee, List.mem_cons_self, _, rfl⟩
      · obtain ⟨isArg, positional⟩ := List.mem_filter.mp isArg
        obtain ⟨arg, isFound, number, rfl⟩ := mem_respanList spans isArg
        rw [isPositional_respan] at positional
        exact ⟨arg, List.mem_cons_of_mem _ (List.mem_filter.mpr ⟨isFound, positional⟩), number,
          rfl⟩
  | attach base bottom top marks place =>
      rcases List.mem_cons.mp member with rfl | isScript
      · exact ⟨base, List.mem_cons_self, _, rfl⟩
      · rcases List.mem_append.mp isScript with isBottom | isTop
        · cases bottom with
          | none => cases isBottom
          | some script =>
              rw [List.mem_singleton.mp isBottom]
              exact ⟨script, by simp [subexpressions], _, rfl⟩
        · cases top with
          | none => cases isTop
          | some script =>
              rw [List.mem_singleton.mp isTop]
              exact ⟨script, by simp [subexpressions], _, rfl⟩
  | frac num denom place =>
      rcases List.mem_cons.mp member with rfl | isDenom
      · exact ⟨num, List.mem_cons_self, _, rfl⟩
      · rw [List.mem_singleton.mp isDenom]
        exact ⟨denom, by simp [subexpressions], _, rfl⟩
  | binary lhs op rhs place =>
      rcases List.mem_cons.mp member with rfl | isRhs
      · exact ⟨lhs, List.mem_cons_self, _, rfl⟩
      · rw [List.mem_singleton.mp isRhs]
        exact ⟨rhs, by simp [subexpressions], _, rfl⟩
  | root degree expr place =>
      rw [List.mem_singleton.mp member]
      exact ⟨expr, List.mem_cons_self, _, rfl⟩
  | parenthesized expr place =>
      rw [List.mem_singleton.mp member]
      exact ⟨expr, List.mem_cons_self, _, rfl⟩
  | unary op expr place =>
      rw [List.mem_singleton.mp member]
      exact ⟨expr, List.mem_cons_self, _, rfl⟩
  | _ => cases member

/-- A node that is reached in a numbered tree is a numbered node that is reached in the tree. -/
theorem Reaches.of_respan {index : Nat} {node inner : Node}
    (reaches : (node.respan spans index).Reaches inner) :
    ∃ reached number, node.Reaches reached ∧ inner = reached.respan spans number := by
  generalize same : node.respan spans index = numbered at reaches
  induction reaches generalizing node index with
  | here => exact ⟨node, index, .here, same.symm⟩
  | through direct _ ih =>
      subst same
      obtain ⟨expr, isExpr, number, same⟩ := subexpressions_respan spans direct
      obtain ⟨reached, found, reaches, equal⟩ := ih same.symm
      exact ⟨reached, found, .through isExpr reaches, equal⟩

end Node

theorem SpanNumbers.get_inj {numbers : SpanNumbers} (steps : numbers.step ≠ 0) {a b : Nat}
    (same : numbers.get a = numbers.get b) : a = b := by
  unfold SpanNumbers.get at same
  have equal := Int.mul_eq_mul_right_iff steps |>.mp (Int.add_left_cancel same)
  exact Int.ofNat_inj.mp equal

theorem lookup_zipIdx {numbers : SpanNumbers} (steps : numbers.step ≠ 0) {places : List Place}
    {place : Place} {start index : Nat} (member : (place, index) ∈ places.zipIdx start) :
    ((places.zipIdx start).map fun (place, index) => (numbers.get index, place.range)).lookup
      (numbers.get index) = some place.range := by
  induction places generalizing start with
  | nil => cases member
  | cons first rest ih =>
      rw [List.zipIdx_cons, List.map_cons, List.lookup_cons]
      rcases List.mem_cons.mp member with same | later
      · cases same
        simp
      · have different : numbers.get index ≠ numbers.get start := by
          intro same
          have equal := SpanNumbers.get_inj steps same
          have after := (List.mk_mem_zipIdx_iff_le_and_getElem?_sub.mp later).1
          omega
        simp only [beq_eq_false_iff_ne.mpr different]
        exact ih later

theorem Formula.number_eq {formula numbered : Formula} {file : String} {numbers : SpanNumbers}
    {table : SpanTable} (made : formula.number file numbers = .ok (numbered, table)) :
    numbers.step ≠ 0 ∧
      numbered.node = formula.node.respan (fun index => .numbered file (numbers.get index)) 0 ∧
      table = ⟨file, formula.node.places.zipIdx.map fun (place, index) =>
        (numbers.get index, place.range)⟩ := by
  unfold Formula.number at made
  dsimp only at made
  split at made
  · cases made
  · rename_i steps
    split at made
    · cases made
    · cases made
      exact ⟨steps, rfl, rfl⟩

theorem Formula.number_resolves {formula numbered : Formula} {file : String}
    {numbers : SpanNumbers} {table : SpanTable}
    (made : formula.number file numbers = .ok (numbered, table)) {part : TreePart}
    (member : part ∈ numbered.node.subtree) :
    table.resolve part.place.span = some part.range := by
  obtain ⟨steps, tree, rfl⟩ := Formula.number_eq made
  have isPlace : part.place ∈ numbered.node.places := by
    rw [Node.places_eq]
    exact List.mem_map_of_mem member
  rw [tree, Node.places_respan] at isPlace
  obtain ⟨⟨place, index⟩, isNumbered, same⟩ := List.mem_map.mp isPlace
  have found := lookup_zipIdx steps isNumbered
  unfold TreePart.range
  rw [← same]
  simpa [SpanTable.resolve, Place.withSpan] using found

theorem Formula.exists_part_of_numbered {formula numbered : Formula} {file : String}
    {numbers : SpanNumbers} {table : SpanTable}
    (made : formula.number file numbers = .ok (numbered, table)) {part : TreePart}
    (member : part ∈ numbered.node.subtree) :
    ∃ original ∈ formula.node.subtree, original.range = part.range := by
  obtain ⟨-, tree, -⟩ := Formula.number_eq made
  have isPlace : part.place ∈ numbered.node.places := by
    rw [Node.places_eq]
    exact List.mem_map_of_mem member
  rw [tree, Node.places_respan] at isPlace
  obtain ⟨⟨place, index⟩, isNumbered, same⟩ := List.mem_map.mp isPlace
  have isOriginal : place ∈ formula.node.places := List.fst_mem_of_mem_zipIdx isNumbered
  rw [Node.places_eq] at isOriginal
  obtain ⟨original, found, rfl⟩ := List.mem_map.mp isOriginal
  refine ⟨original, found, ?_⟩
  unfold TreePart.range
  rw [← same]
  rfl

end EquationMap
