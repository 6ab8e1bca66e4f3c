import EquationMap.Proofs.Tree.Placement

namespace EquationMap

open Grammar

variable {IsEnd : Nat → Prop} {start stop : Nat}

theorem Node.Tidy.contains_unspread {item : Node} (tidy : item.Tidy IsEnd) :
    item.range.contains item.unspread.range = true := by
  cases item with
  | spread expr place => exact tidy.here.inside (.node expr) List.mem_cons_self
  | _ => exact ByteRange.contains_self _

theorem Node.Tidy.contains_pairExprs {item expr : Node} (tidy : item.Tidy IsEnd)
    (member : expr ∈ item.pairExprs) : item.range.contains expr.range = true := by
  have direct : .node expr ∈ item.parts := by
    cases item <;> simp [Node.pairExprs, Node.parts] at member ⊢ <;> exact member
  exact tidy.here.inside (.node expr) direct

theorem Node.Tidy.pairExprs_apart {item : Node} (tidy : item.Tidy IsEnd) :
    item.pairExprs.Pairwise fun a b => a.range.Apart b.range := by
  cases item with
  | keyed key expr place =>
      refine List.pairwise_pair.mpr ?_
      exact tidy.here.pair rfl
  | named | spread => exact List.pairwise_singleton _ _
  | _ => exact .nil

namespace InRow

variable {nodes : List Node}

theorem unspread_apart (row : InRow IsEnd start nodes stop) :
    (nodes.map Node.unspread).Pairwise fun a b => a.range.Apart b.range := by
  refine List.pairwise_map.mpr (row.apart.imp_of_mem ?_)
  intro a b first second apart
  exact apart.inside (row.tidy a first).contains_unspread (row.tidy b second).contains_unspread

theorem pairExprs_apart (row : InRow IsEnd start nodes stop) :
    (nodes.flatMap Node.pairExprs).Pairwise fun a b => a.range.Apart b.range := by
  refine List.pairwise_flatMap.mpr ⟨?_, row.apart.imp_of_mem ?_⟩
  · intro item member
    exact (row.tidy item member).pairExprs_apart
  · intro a b first second apart x inA y inB
    exact apart.inside ((row.tidy a first).contains_pairExprs inA)
      ((row.tidy b second).contains_pairExprs inB)

theorem tight (row : InRow IsEnd start nodes stop) {first last : Node}
    (head : nodes.head? = some first) (final : nodes.getLast? = some last) :
    InRow IsEnd first.range.start nodes last.range.stop := by
  obtain ⟨others, rfl⟩ := List.head?_eq_some_iff.mp head
  obtain ⟨before, split⟩ := List.getLast?_eq_some_iff.mp final
  have ordered := row.ordered
  have from_first : ∀ node ∈ first :: others, first.range.start ≤ node.range.start := by
    intro node member
    have := first.range.ordered
    rcases List.mem_cons.mp member with rfl | later
    · exact Nat.le_refl _
    · have := List.rel_of_pairwise_cons ordered later
      omega
  have to_last : ∀ node ∈ first :: others, node.range.stop ≤ last.range.stop := by
    intro node member
    rw [split] at member ordered
    have := last.range.ordered
    rcases List.mem_append.mp member with earlier | isLast
    · have := (List.pairwise_append.mp ordered).2.2 node earlier last List.mem_cons_self
      omega
    · obtain rfl := List.mem_singleton.mp isLast
      exact Nat.le_refl _
  refine ⟨?_, fun node member => ⟨from_first node member, to_last node member⟩, ordered,
    row.tidy⟩
  have := to_last first List.mem_cons_self
  have := first.range.ordered
  omega

end InRow

namespace Grammar.ArgumentRows

theorem eq_of_arrayOf? {nodes : List Node} {array : Node} (made : arrayOf? nodes = some array) :
    ∃ first last, nodes.head? = some first ∧ nodes.getLast? = some last ∧
      array = .array nodes ⟨.cover first.range last.range, .detached⟩ := by
  cases nodes with
  | nil => cases made
  | cons first rest =>
      cases made
      refine ⟨first, rest.getLast?.getD first, rfl, ?_, rfl⟩
      rw [List.getLast?_cons]

/-- The array that a row of arguments makes, with the range from its first to its last one. -/
theorem arrayOf?_placed {nodes : List Node} {array : Node} (row : InRow IsEnd start nodes stop)
    (made : arrayOf? nodes = some array) :
    array.Tidy IsEnd ∧ array.isPositional = true ∧
      ∃ first ∈ nodes, ∃ last ∈ nodes, array.range.start = first.range.start ∧
        array.range.stop = last.range.stop := by
  obtain ⟨first, last, head, final, rfl⟩ := eq_of_arrayOf? made
  have tight := row.tight head final
  have isFirst := List.mem_of_mem_head? head
  have isLast := List.mem_of_getLast? final
  have same : max first.range.start last.range.stop = last.range.stop :=
    Nat.max_eq_right tight.le
  refine ⟨?_, rfl, first, isFirst, last, isLast, rfl, same⟩
  refine tight.node_tidy rfl (Nat.le_refl _) (Nat.le_of_eq same.symm)
    (row.tidy first isFirst).isStart ?_ row.unspread_apart (by simp)
  change IsEnd (max first.range.start last.range.stop)
  rw [same]
  exact (row.tidy last isLast).isStop

namespace Placed

variable {found : ArgumentRows}

theorem empty (start : Nat) : ArgumentRows.Placed IsEnd start {} start where
  positional := .nil (Nat.le_refl start)
  named := by simp

theorem add (placed : found.Placed IsEnd start stop) {node : Node} (tidy : node.Tidy IsEnd)
    (le : stop ≤ node.range.start) : (found.add node).Placed IsEnd start node.range.stop := by
  have start_le := placed.positional.le
  have ordered := node.range.ordered
  have longer : ∀ other ∈ found.named, start ≤ other.range.start ∧
      other.range.stop ≤ node.range.stop ∧ other.Tidy IsEnd ∧ other.isPositional = false := by
    intro other member
    obtain ⟨after, before, facts⟩ := placed.named other member
    exact ⟨after, by omega, facts⟩
  have extended := placed.positional.snoc tidy le
  rw [List.append_assoc] at extended
  cases node
  case named name expr place =>
    refine ⟨placed.positional.longer (Nat.le_trans le ordered), ?_⟩
    intro other member
    rcases List.mem_append.mp member with earlier | isNode
    · exact longer other earlier
    · rw [List.mem_singleton.mp isNode]
      exact ⟨Nat.le_trans start_le le, Nat.le_refl _, tidy, rfl⟩
  all_goals exact ⟨extended, longer⟩

theorem endRow (placed : found.Placed IsEnd start stop) :
    found.endRow.Placed IsEnd start stop where
  positional := by
    have positional := placed.positional
    simpa [ArgumentRows.endRow] using positional
  named := placed.named

theorem arrays (placed : found.Placed IsEnd start stop) :
    (∀ array ∈ (found.rows ++ [found.row]).filterMap arrayOf?,
      start ≤ array.range.start ∧ array.range.stop ≤ stop ∧ array.Tidy IsEnd) ∧
    ((found.rows ++ [found.row]).filterMap arrayOf?).Pairwise
      fun a b => a.range.Apart b.range := by
  have whole : InRow IsEnd start (found.rows ++ [found.row]).flatten stop := by
    simpa using placed.positional
  have each : ∀ row ∈ found.rows ++ [found.row], InRow IsEnd start row stop := by
    intro row member
    exact whole.sublist (List.sublist_flatten_of_mem member)
  constructor
  · intro array member
    obtain ⟨row, isRow, made⟩ := List.mem_filterMap.mp member
    obtain ⟨tidy, -, first, isFirst, last, isLast, array_start, array_stop⟩ :=
      arrayOf?_placed (each row isRow) made
    have := (each row isRow).inside first isFirst
    have := (each row isRow).inside last isLast
    exact ⟨by omega, by omega, tidy⟩
  · refine List.pairwise_filterMap.mpr ?_
    refine (List.pairwise_flatten.mp whole.ordered).2.imp_of_mem ?_
    intro left right isLeft isRight before a madeA b madeB
    obtain ⟨-, -, -, -, last, isLast, -, a_stop⟩ := arrayOf?_placed (each left isLeft) madeA
    obtain ⟨-, -, first, isFirst, -, -, b_start, -⟩ := arrayOf?_placed (each right isRight) madeB
    left
    rw [a_stop, b_start]
    exact before last isLast first isFirst

theorem filter_named (placed : found.Placed IsEnd start stop) :
    found.named.filter Node.isPositional = [] := by
  rw [List.filter_eq_nil_iff]
  intro node member
  simp [(placed.named node member).2.2.2]

/-- The arguments of a call are tidy and, but for the named ones, apart from each other. -/
theorem items (placed : found.Placed IsEnd start stop) :
    (∀ item ∈ found.items,
      start ≤ item.range.start ∧ item.range.stop ≤ stop ∧ item.Tidy IsEnd) ∧
    (found.items.filter Node.isPositional).Pairwise fun a b => a.range.Apart b.range := by
  have named : ∀ item ∈ found.named,
      start ≤ item.range.start ∧ item.range.stop ≤ stop ∧ item.Tidy IsEnd := by
    intro item member
    obtain ⟨after, before, tidy, -⟩ := placed.named item member
    exact ⟨after, before, tidy⟩
  unfold ArgumentRows.items
  split
  · obtain ⟨arrays, apart⟩ := placed.arrays
    constructor
    · intro item member
      rcases List.mem_append.mp member with isArray | isNamed
      · exact arrays item isArray
      · exact named item isNamed
    · rw [List.filter_append, placed.filter_named, List.append_nil]
      exact apart.sublist List.filter_sublist
  · have row := placed.positional.sublist (List.sublist_append_right _ _)
    constructor
    · intro item member
      rcases List.mem_append.mp member with isPositional | isNamed
      · exact ⟨(row.inside item isPositional).1, (row.inside item isPositional).2,
          row.tidy item isPositional⟩
      · exact named item isNamed
    · rw [List.filter_append, placed.filter_named, List.append_nil]
      exact row.apart.sublist List.filter_sublist

end Placed

end Grammar.ArgumentRows

end EquationMap
