import EquationMap.Proofs.Tree.Numbers
import Mathlib.Data.List.Basic

namespace EquationMap

namespace Node

theorem unspannedList_eq (nodes : List Node) : unspannedList nodes = nodes.map unspanned := by
  induction nodes with
  | nil => rfl
  | cons node rest ih => rw [unspannedList, ih, List.map_cons]

theorem unspannedOption_eq (node : Option Node) : unspannedOption node = node.map unspanned := by
  cases node <;> rfl

end Node

namespace TreePart

def unspanned : TreePart → TreePart
  | .node tree => .node tree.unspanned
  | .arguments args place => .arguments (args.map Node.unspanned) place.unspanned

theorem parts_unspanned (part : TreePart) : part.unspanned.parts = part.parts.map unspanned := by
  have nodes (nodes : List Node) :
      (nodes.map Node.unspanned).map node = (nodes.map node).map unspanned := by
    rw [List.map_map, List.map_map]
    rfl
  have option (node : Option Node) :
      (node.map Node.unspanned).toList.map TreePart.node =
        (node.toList.map .node).map unspanned := by
    cases node <;> rfl
  cases part with
  | arguments args place => exact nodes args
  | node tree =>
      cases tree
      case attach base bottom top marks place =>
        have primes : ((marks.map fun marks => (⟨marks.count, marks.place.unspanned⟩ :
            EquationMap.Primes)).toList.map fun marks => TreePart.node (.primes marks)) =
              (marks.toList.map fun marks => TreePart.node (.primes marks)).map unspanned := by
          cases marks <;> rfl
        simp only [unspanned, Node.unspanned, parts, Node.parts, Node.unspannedOption_eq, option,
          primes, List.map_cons, List.map_append, List.cons_append]
      all_goals
        simp [unspanned, Node.unspanned, parts, Node.parts, Node.unspannedList_eq,
          Delimiter.node]

theorem subtree_unspanned (part : TreePart) :
    part.unspanned.subtree = part.subtree.map unspanned := by
  induction part using TreePart.induction with
  | step part ih =>
      have below : part.parts.flatMap (fun inner => inner.unspanned.subtree) =
          part.parts.flatMap (fun inner => inner.subtree.map unspanned) :=
        List.flatMap_congr ih
      rw [subtree_eq, subtree_eq part, parts_unspanned, List.flatMap_map, below, List.map_cons,
        List.map_flatMap]

end TreePart

theorem Formula.exists_unspanned_of_numbered {formula numbered : Formula} {file : String}
    {numbers : SpanNumbers} {table : SpanTable}
    (made : formula.number file numbers = .ok (numbered, table)) {part : TreePart}
    (member : part ∈ numbered.node.subtree) :
    ∃ original ∈ formula.node.subtree, original.unspanned = part.unspanned := by
  obtain ⟨-, tree, -⟩ := Formula.number_eq made
  have same : numbered.node.unspanned = formula.node.unspanned := by
    rw [tree, Node.unspanned_respan]
  have numbered_parts := TreePart.subtree_unspanned (.node numbered.node)
  have formula_parts := TreePart.subtree_unspanned (.node formula.node)
  rw [TreePart.unspanned, same] at numbered_parts
  rw [TreePart.unspanned, numbered_parts] at formula_parts
  have among : part.unspanned ∈ numbered.node.subtree.map TreePart.unspanned :=
    List.mem_map_of_mem member
  rw [show numbered.node.subtree.map TreePart.unspanned =
    formula.node.subtree.map TreePart.unspanned from formula_parts] at among
  obtain ⟨original, found, equal⟩ := List.mem_map.mp among
  exact ⟨original, found, equal⟩

end EquationMap
