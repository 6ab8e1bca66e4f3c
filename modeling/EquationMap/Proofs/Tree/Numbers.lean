import EquationMap.Proofs.Tree.Numbering
import EquationMap.Source.Source

namespace EquationMap

namespace SpanNumbers

variable {numbers : SpanNumbers}

/-- Whether a number is one of those from `start` in steps of `step` that do not reach `stop`. -/
def Holds (numbers : SpanNumbers) (number : Int) : Prop :=
  (∃ index : Nat, number = numbers.start + index * numbers.step) ∧
    (0 < numbers.step → number < numbers.stop) ∧ (numbers.step < 0 → numbers.stop < number)

private theorem lt_ceilDiv_iff (distance : Int) {step : Int} (positive : 0 < step) (index : Nat) :
    index < ((distance + step - 1) / step).toNat ↔ index * step < distance := by
  have counted : (index : Int) + 1 ≤ (distance + step - 1) / step ↔
      (index + 1) * step ≤ distance + step - 1 := Int.le_ediv_iff_mul_le positive
  have split : ((index : Int) + 1) * step = index * step + step := by
    rw [Int.add_mul, Int.one_mul]
  omega

theorem holds_get_iff (steps : numbers.step ≠ 0) (index : Nat) :
    numbers.Holds (numbers.get index) ↔ index < numbers.count := by
  have reached : ∃ other : Nat, numbers.get index = numbers.start + other * numbers.step :=
    ⟨index, rfl⟩
  unfold Holds count
  simp only [reached, true_and]
  unfold get
  rcases Int.lt_or_gt_of_ne steps with negative | positive
  · have counted := lt_ceilDiv_iff (numbers.start - numbers.stop)
      (Int.neg_pos_of_neg negative) index
    rw [Int.mul_neg, ← Int.sub_eq_add_neg] at counted
    rw [if_neg (by omega), if_pos negative]
    omega
  · have counted := lt_ceilDiv_iff (numbers.stop - numbers.start) positive index
    rw [if_pos positive]
    omega

theorem holds_iff (steps : numbers.step ≠ 0) (number : Int) :
    numbers.Holds number ↔ ∃ index < numbers.count, number = numbers.get index := by
  constructor
  · intro holds
    obtain ⟨index, rfl⟩ := holds.1
    exact ⟨index, (holds_get_iff steps index).mp holds, rfl⟩
  · rintro ⟨index, counted, rfl⟩
    exact (holds_get_iff steps index).mpr counted

theorem nodup_map_get (steps : numbers.step ≠ 0) (count : Nat) :
    ((List.range count).map numbers.get).Nodup :=
  List.Pairwise.map _ (fun _ _ different same => different (get_inj steps same)) List.nodup_range

end SpanNumbers

def Place.unspanned (place : Place) : Place :=
  place.withSpan .detached

@[simp]
theorem Place.unspanned_withSpan (place : Place) (span : Span) :
    (place.withSpan span).unspanned = place.unspanned :=
  rfl

namespace Node

mutual

def unspanned : Node → Node
  | math exprs place => math (unspannedList exprs) place.unspanned
  | text written place => text written place.unspanned
  | mathIdent name place => mathIdent name place.unspanned
  | shorthand written symbol place => shorthand written symbol place.unspanned
  | alignPoint place => alignPoint place.unspanned
  | linebreak place => linebreak place.unspanned
  | delimited opening body bodyPlace closing place =>
      delimited ⟨opening.text, opening.place.unspanned⟩ (unspannedList body) bodyPlace.unspanned
        ⟨closing.text, closing.place.unspanned⟩ place.unspanned
  | primes marks => primes ⟨marks.count, marks.place.unspanned⟩
  | attach base bottom top marks place =>
      attach base.unspanned (unspannedOption bottom) (unspannedOption top)
        (marks.map fun marks => ⟨marks.count, marks.place.unspanned⟩) place.unspanned
  | frac num denom place => frac num.unspanned denom.unspanned place.unspanned
  | root degree radicand place => root degree radicand.unspanned place.unspanned
  | ident name place => ident name place.unspanned
  | int value place => int value place.unspanned
  | float value place => float value place.unspanned
  | str value place => str value place.unspanned
  | bool value place => bool value place.unspanned
  | noneLit place => noneLit place.unspanned
  | autoLit place => autoLit place.unspanned
  | parenthesized expr place => parenthesized expr.unspanned place.unspanned
  | named name expr place => named name expr.unspanned place.unspanned
  | keyed key expr place => keyed key.unspanned expr.unspanned place.unspanned
  | spread expr place => spread expr.unspanned place.unspanned
  | array items place => array (unspannedList items) place.unspanned
  | dict items place => dict (unspannedList items) place.unspanned
  | contentBlock body bodyPlace place =>
      contentBlock (unspannedList body) bodyPlace.unspanned place.unspanned
  | call callee args argsPlace place =>
      call callee.unspanned (unspannedList args) argsPlace.unspanned place.unspanned
  | field target name place => field target.unspanned name place.unspanned
  | binary lhs op rhs place => binary lhs.unspanned op rhs.unspanned place.unspanned
  | unary op expr place => unary op expr.unspanned place.unspanned

def unspannedList : List Node → List Node
  | [] => []
  | node :: rest => node.unspanned :: unspannedList rest

def unspannedOption : Option Node → Option Node
  | none => none
  | some node => some node.unspanned

end

variable (spans : Nat → Span)

mutual

theorem unspanned_respan : ∀ (index : Nat) (node : Node),
    (node.respan spans index).unspanned = node.unspanned
  | _, .math exprs _ => by
      simp [respan, unspanned, unspannedList_respanList _ exprs]
  | _, .delimited _ body _ _ _ => by
      simp [respan, unspanned, unspannedList_respanList _ body]
  | _, .attach base bottom top marks _ => by
      cases marks <;>
        simp [respan, unspanned, unspanned_respan _ base,
          unspannedOption_respanOption _ bottom, unspannedOption_respanOption _ top]
  | _, .frac left right _ | _, .keyed left right _ | _, .binary left _ right _ => by
      simp [respan, unspanned, unspanned_respan _ left, unspanned_respan _ right]
  | _, .root _ expr _ | _, .parenthesized expr _ | _, .named _ expr _ | _, .spread expr _
  | _, .unary _ expr _ | _, .field expr _ _ => by
      simp [respan, unspanned, unspanned_respan _ expr]
  | _, .array items _ | _, .dict items _ | _, .contentBlock items _ _ => by
      simp [respan, unspanned, unspannedList_respanList _ items]
  | _, .call callee args _ _ => by
      simp [respan, unspanned, unspanned_respan _ callee, unspannedList_respanList _ args]
  | _, .primes _ | _, .text _ _ | _, .mathIdent _ _ | _, .shorthand _ _ _ | _, .alignPoint _
  | _, .linebreak _ | _, .ident _ _ | _, .int _ _ | _, .float _ _ | _, .str _ _ | _, .bool _ _
  | _, .noneLit _ | _, .autoLit _ => rfl

theorem unspannedList_respanList : ∀ (index : Nat) (nodes : List Node),
    unspannedList (respanList spans index nodes) = unspannedList nodes
  | _, [] => rfl
  | _, node :: rest => by
      simp only [respanList, unspannedList, unspanned_respan _ node,
        unspannedList_respanList _ rest]

theorem unspannedOption_respanOption : ∀ (index : Nat) (node : Option Node),
    unspannedOption (respanOption spans index node) = unspannedOption node
  | _, none => rfl
  | _, some node => congrArg some (unspanned_respan _ node)

end

theorem getElem?_numberedPlaces (start : Nat) (places : List Place) (index : Nat) :
    (numberedPlaces spans start places)[index]? =
      places[index]?.map fun place => place.withSpan (spans (start + index)) := by
  rw [numberedPlaces, List.getElem?_map, List.getElem?_zipIdx, Option.map_map]
  rfl

theorem getElem?_subtree_respan {start index : Nat} {node : Node} {part : TreePart}
    (found : (node.respan spans start).subtree[index]? = some part) :
    part.place.span = spans (start + index) ∧
      ∃ original, node.subtree[index]? = some original ∧ original.range = part.range := by
  have place : (node.respan spans start).places[index]? = some part.place := by
    rw [places_eq, List.getElem?_map, found]
    rfl
  rw [places_respan, getElem?_numberedPlaces, places_eq, List.getElem?_map] at place
  simp only [Option.map_map, Option.map_eq_some_iff, Function.comp_apply] at place
  obtain ⟨original, isOriginal, same⟩ := place
  unfold TreePart.range
  rw [← same]
  exact ⟨rfl, original, isOriginal, rfl⟩

theorem length_subtree_respan (start : Nat) (node : Node) :
    (node.respan spans start).subtree.length = node.subtree.length := by
  have numbered := congrArg List.length (places_respan spans start node)
  simpa [places_eq, numberedPlaces] using numbered

end Node

namespace SpanTable

variable {table : SpanTable} {span : Span} {range : ByteRange}

theorem exists_entry_of_resolve (resolved : table.resolve span = some range) :
    ∃ number, span = .numbered table.file number ∧ (number, range) ∈ table.ranges := by
  unfold resolve at resolved
  split at resolved
  · cases resolved
  · rename_i number
    split at resolved
    · rename_i own
      obtain ⟨before, after, split, -⟩ := List.lookup_eq_some_iff.mp resolved
      exact ⟨number, by rw [own], by simp [split]⟩
    · cases resolved

end SpanTable

namespace Formula

variable {formula numbered : Formula} {file : String} {numbers : SpanNumbers}
  {table : SpanTable}

/-- A tree gets no numbers if it has more nodes than there are numbers, and only then. -/
theorem number_eq_error_iff (steps : numbers.step ≠ 0) {reason : Unnumberable} :
    formula.number file numbers = .error reason ↔
      reason = .tooFew numbers.count ∧ numbers.count < formula.node.subtree.length := by
  have length : formula.node.places.length = formula.node.subtree.length := by
    rw [Node.places_eq, List.length_map]
  unfold number
  simp only [if_neg steps, length]
  split
  · rename_i few
    simp only [few, and_true, Except.error.injEq]
    exact eq_comm
  · rename_i enough
    simp [enough]

theorem number_keys (made : formula.number file numbers = .ok (numbered, table)) :
    table.ranges.map Prod.fst =
      (List.range formula.node.subtree.length).map numbers.get := by
  obtain ⟨-, -, rfl⟩ := number_eq made
  rw [List.map_map, Node.places_eq]
  have indices := congrArg (List.map numbers.get)
    (List.zipIdx_map_snd 0 (formula.node.subtree.map TreePart.place))
  rw [List.map_map, List.length_map, ← List.range_eq_range'] at indices
  exact indices

theorem exists_part_of_resolve (made : formula.number file numbers = .ok (numbered, table))
    {span : Span} {range : ByteRange} (resolved : table.resolve span = some range) :
    ∃ part ∈ numbered.node.subtree, part.place.span = span ∧ part.range = range := by
  obtain ⟨steps, tree, same⟩ := number_eq made
  obtain ⟨number, rfl, listed⟩ := SpanTable.exists_entry_of_resolve resolved
  obtain ⟨⟨place, index⟩, isNumbered, entry⟩ : ∃ entry ∈ formula.node.places.zipIdx,
      (numbers.get entry.2, entry.1.range) = (number, range) := by
    rw [same] at listed
    exact List.mem_map.mp listed
  have isPlace : place.withSpan (.numbered file (numbers.get index)) ∈ numbered.node.places := by
    rw [tree, Node.places_respan]
    exact List.mem_map.mpr ⟨_, isNumbered, rfl⟩
  rw [Node.places_eq] at isPlace
  obtain ⟨part, member, placed⟩ := List.mem_map.mp isPlace
  cases entry
  refine ⟨part, member, ?_, ?_⟩
  · rw [placed, same]
    rfl
  · unfold TreePart.range
    rw [placed]
    rfl

end Formula

/-- A tree is numbered unless it has more nodes than the interval has numbers. Then it is the
same tree with spans; its nodes have the numbers of the interval in preorder, and a source of
it resolves the spans of the nodes to their ranges, and no others. -/
theorem nodes_numbered_in_order (formula : Formula) (file : String) (numbers : SpanNumbers)
    (steps : numbers.step ≠ 0) :
    (∀ number, numbers.Holds number ↔ ∃ index < numbers.count, number = numbers.get index) ∧
    (∀ reason, formula.number file numbers = .error reason ↔
      reason = .tooFew numbers.count ∧ numbers.count < formula.node.subtree.length) ∧
    (formula.node.subtree.length ≤ numbers.count →
      ∃ numbered table, formula.number file numbers = .ok (numbered, table) ∧
        numbered.node.unspanned = formula.node.unspanned ∧
        numbered.node.subtree.length = formula.node.subtree.length ∧
        table.ranges.map Prod.fst =
          (List.range formula.node.subtree.length).map numbers.get ∧
        (table.ranges.map Prod.fst).Nodup ∧
        (∀ (index : Nat) (part : TreePart), numbered.node.subtree[index]? = some part →
          part.place.span = .numbered file (numbers.get index) ∧
          ∃ original, formula.node.subtree[index]? = some original ∧
            original.range = part.range) ∧
        ∀ text, let source : Source := ⟨text, numbered, table⟩
          (∀ part ∈ numbered.node.subtree,
            source.resolver part.place.span = some part.range) ∧
          ∀ span range, source.resolver span = some range →
            ∃ part ∈ numbered.node.subtree, part.place.span = span ∧ part.range = range) := by
  refine ⟨SpanNumbers.holds_iff steps, fun _ => Formula.number_eq_error_iff steps, ?_⟩
  intro enough
  cases made : formula.number file numbers with
  | error reason =>
      have few := ((Formula.number_eq_error_iff steps).mp made).2
      omega
  | ok result =>
      obtain ⟨numbered, table⟩ := result
      obtain ⟨-, tree, -⟩ := Formula.number_eq made
      have keys := Formula.number_keys made
      refine ⟨numbered, table, rfl, ?_, ?_, keys, ?_, ?_, ?_⟩
      · rw [tree, Node.unspanned_respan]
      · rw [tree, Node.length_subtree_respan]
      · rw [keys]
        exact SpanNumbers.nodup_map_get steps _
      · intro index part found
        rw [tree] at found
        have numbered := Node.getElem?_subtree_respan _ found
        rw [Nat.zero_add] at numbered
        exact numbered
      · intro text
        exact ⟨fun part member => Formula.number_resolves made member,
          fun span range resolved => Formula.exists_part_of_resolve made resolved⟩

/-- A falling interval numbers the four nodes of a fraction in their order, if it has four
numbers. -/
theorem nodes_numbered_downwards :
    let formula : Formula :=
      ⟨[.frac (.mathIdent "a" ⟨⟨0, 1, by decide⟩, .detached⟩)
        (.mathIdent "b" ⟨⟨2, 3, by decide⟩, .detached⟩) ⟨⟨0, 3, by decide⟩, .detached⟩],
        ⟨⟨0, 3, by decide⟩, .detached⟩⟩
    formula.number "main" ⟨9, 3, -2⟩ = .error (.tooFew 3) ∧
      ∃ numbered table, formula.number "main" ⟨9, 2, -2⟩ = .ok (numbered, table) ∧
        table.ranges.map Prod.fst = [9, 7, 5, 3] := by
  intro formula
  obtain ⟨-, refused, -⟩ := nodes_numbered_in_order formula "main" ⟨9, 3, -2⟩ (by decide)
  obtain ⟨-, -, numbers⟩ := nodes_numbered_in_order formula "main" ⟨9, 2, -2⟩ (by decide)
  obtain ⟨numbered, table, made, -, -, keys, -⟩ := numbers (by decide)
  exact ⟨(refused _).mpr ⟨rfl, by decide⟩, numbered, table, made, keys⟩

end EquationMap
