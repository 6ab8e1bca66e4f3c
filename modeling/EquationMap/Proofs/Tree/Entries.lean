import EquationMap.Proofs.Tree.Laminar
import EquationMap.Subexpression.Entry

namespace EquationMap

/-! The entries of a tree: one for each range of a node that is reached. -/

namespace Entry

variable (resolver : Resolver) (text : List Char)

theorem visitAll_eq (found : List Entry) (nodes : List Node) :
    visitAll resolver text found nodes = nodes.foldl (visit resolver text) found := by
  induction nodes generalizing found with
  | nil => rfl
  | cons node rest ih => rw [visitAll, ih, List.foldl_cons]

theorem visitOption_eq (found : List Entry) (node : Option Node) :
    visitOption resolver text found node = node.toList.foldl (visit resolver text) found := by
  cases node <;> rfl

theorem visitArguments_eq (found : List Entry) (args : List Node) :
    visitArguments resolver text found args =
      (args.filter Node.isPositional).foldl (visit resolver text) found := by
  induction args generalizing found with
  | nil => rfl
  | cons arg rest ih =>
      cases arg <;> simp [visitArguments, ih, List.filter_cons, Node.isPositional]

theorem visitItems_eq (found : List Entry) (items : List Node) :
    visitItems resolver text found items =
      (items.map Node.unspread).foldl (visit resolver text) found := by
  induction items generalizing found with
  | nil => rfl
  | cons item rest ih =>
      cases item <;> simp [visitItems, ih, Node.unspread]

theorem visitPairs_eq (found : List Entry) (items : List Node) :
    visitPairs resolver text found items =
      (items.flatMap Node.pairExprs).foldl (visit resolver text) found := by
  induction items generalizing found with
  | nil => rfl
  | cons item rest ih =>
      cases item <;> simp [visitPairs, ih, Node.pairExprs]

theorem visit_eq (found : List Entry) (node : Node) :
    visit resolver text found node =
      node.subexpressions.foldl (visit resolver text)
        (add resolver text node.place.span found) := by
  cases node <;>
    simp [visit, visitAll_eq, visitOption_eq, visitArguments_eq, visitItems_eq, visitPairs_eq,
      Node.subexpressions, Node.place]

variable {resolver : Resolver} {text : List Char} {found : List Entry}

theorem visit_preserves {motive : List Entry → Prop} {node : Node} (holds : motive found)
    (step : ∀ inner, node.Reaches inner → ∀ earlier, motive earlier →
      motive (add resolver text inner.place.span earlier)) :
    motive (visit resolver text found node) := by
  induction node using Node.subexpression_induction generalizing found with
  | step node ih =>
      rw [visit_eq]
      refine List.foldlRecOn _ _ (step node .here found holds) ?_
      intro earlier kept expr direct
      exact ih expr direct kept fun inner reaches => step inner (.through direct reaches)

theorem suffix_add (span : Span) : found <:+ add resolver text span found := by
  unfold add
  split
  · exact List.suffix_rfl
  · split
    · exact List.suffix_cons _ _
    · exact List.suffix_rfl

theorem mem_add {span : Span} {entry : Entry} (member : entry ∈ add resolver text span found) :
    entry ∈ found ∨ resolver span = some entry.range := by
  unfold add at member
  split at member
  · exact .inl member
  · rename_i range resolved
    split at member
    · rcases List.mem_cons.mp member with rfl | earlier
      · exact .inr resolved
      · exact .inl earlier
    · exact .inl member

theorem add_covers {span : Span} {range : ByteRange} (resolved : resolver span = some range)
    (inText : range.stop ≤ Text.byteLength text) (found : List Entry) :
    ∃ entry ∈ add resolver text span found, entry.range = range := by
  unfold add
  simp only [resolved]
  split
  · exact ⟨_, List.mem_cons_self, rfl⟩
  · rename_i listed
    have known : found.any (·.range = range) = true := by
      by_contra unknown
      exact listed ⟨inText, unknown⟩
    obtain ⟨entry, member, same⟩ := List.any_eq_true.mp known
    exact ⟨entry, member, of_decide_eq_true same⟩

theorem add_distinct {span : Span}
    (distinct : found.Pairwise fun a b => a.range ≠ b.range) :
    (add resolver text span found).Pairwise fun a b => a.range ≠ b.range := by
  unfold add
  split
  · exact distinct
  · split
    · rename_i fresh
      refine .cons ?_ distinct
      intro entry member same
      refine fresh.2 (List.any_eq_true.mpr ⟨entry, member, ?_⟩)
      exact decide_eq_true same.symm
    · exact distinct

end Entry

namespace Node

variable {node : Node} {resolver : Resolver} {text : String}

theorem exists_reached_of_entry {entry : Entry} (member : entry ∈ node.entries resolver text) :
    ∃ inner, node.Reaches inner ∧ resolver inner.place.span = some entry.range := by
  have each : ∀ entry ∈ Entry.visit resolver text.toList [] node,
      ∃ inner, node.Reaches inner ∧ resolver inner.place.span = some entry.range := by
    refine Entry.visit_preserves (motive := fun found => ∀ entry ∈ found,
      ∃ inner, node.Reaches inner ∧ resolver inner.place.span = some entry.range) ?_ ?_
    · intro entry member
      cases member
    · intro inner reaches earlier known entry member
      rcases Entry.mem_add member with earlier | resolved
      · exact known entry earlier
      · exact ⟨inner, reaches, resolved⟩
  exact each entry (List.mem_reverse.mp member)

/-- Every node that is reached has an entry with its range, if the range lies in the text. -/
theorem exists_entry_of_reached {inner : Node} {range : ByteRange} (reaches : node.Reaches inner)
    (resolved : resolver inner.place.span = some range)
    (inText : range.stop ≤ Text.byteLength text.toList) :
    ∃ entry ∈ node.entries resolver text, entry.range = range := by
  have stays {expr : Node} {entry : Entry} {found : List Entry} (member : entry ∈ found) :
      entry ∈ Entry.visit resolver text.toList found expr :=
    Entry.visit_preserves member fun _ _ _ kept => (Entry.suffix_add _).subset kept
  have listed : ∀ found, ∃ entry ∈ Entry.visit resolver text.toList found node,
      entry.range = range := by
    induction reaches with
    | @here node =>
        intro found
        obtain ⟨entry, added, same⟩ := Entry.add_covers resolved inText found
        refine ⟨entry, ?_, same⟩
        rw [Entry.visit_eq]
        exact List.foldlRecOn _ _ added fun _ kept _ _ => stays kept
    | @through node expr inner direct _ ih =>
        intro found
        obtain ⟨before, after, split⟩ := List.append_of_mem direct
        rw [Entry.visit_eq, split, List.foldl_append, List.foldl_cons]
        obtain ⟨entry, visited, same⟩ := ih resolved _
        exact ⟨entry, List.foldlRecOn _ _ visited fun _ kept _ _ => stays kept, same⟩
  obtain ⟨entry, member, same⟩ := listed []
  exact ⟨entry, List.mem_reverse.mpr member, same⟩

theorem entries_distinct :
    (node.entries resolver text).Pairwise fun a b => a.range ≠ b.range := by
  have visited : (Entry.visit resolver text.toList [] node).Pairwise
      fun a b => a.range ≠ b.range :=
    Entry.visit_preserves .nil fun _ _ _ => Entry.add_distinct
  exact List.pairwise_reverse.mpr (visited.imp fun different => different.symm)

theorem exists_entries_eq {range : ByteRange} (resolved : resolver node.place.span = some range)
    (inText : range.stop ≤ Text.byteLength text.toList) :
    ∃ first others, node.entries resolver text = first :: others ∧ first.range = range := by
  obtain ⟨first, added, same⟩ := Entry.add_covers resolved inText []
  have alone : [first] <:+ Entry.add resolver text.toList node.place.span [] := by
    unfold Entry.add at added ⊢
    simp only [resolved] at added ⊢
    split at added
    · rename_i listed
      obtain rfl := List.mem_singleton.mp added
      simp only [if_pos listed, List.suffix_refl]
    · cases added
  have visited : [first] <:+ Entry.visit resolver text.toList [] node := by
    rw [Entry.visit_eq]
    refine List.foldlRecOn (motive := fun found => [first] <:+ found) _ _ alone ?_
    intro found kept expr _
    exact Entry.visit_preserves kept fun _ _ _ earlier => earlier.trans (Entry.suffix_add _)
  obtain ⟨later, split⟩ := visited
  refine ⟨first, later.reverse, ?_, same⟩
  rw [entries, ← split, List.reverse_append]
  rfl

end Node

end EquationMap
