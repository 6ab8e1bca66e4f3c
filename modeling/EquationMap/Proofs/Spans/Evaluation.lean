import EquationMap.Evaluation.Evaluate
import EquationMap.Proofs.Spans.Functions
import EquationMap.Proofs.Tree.Parts

namespace EquationMap

open Outcome

variable {Known : Span → Prop}

/-- Values whose content can be put at known spans, and content that has known spans. -/
abbrev Knowledge.placed (Known : Span → Prop) : Knowledge where
  span := Known
  value := Value.Placeable Known
  content := Content.Spanned Known
  fault := fun _ => True

theorem Knowledge.closed_placed : (placed Known).Closed where
  bare bare _ := Value.placeable_of_no_contents bare
  item placeable member := Value.placeable_array.mp placeable _ member
  entry placeable member := Value.placeable_dict.mp placeable _ member
  shown placeable known shows := Value.spanned_display placeable known shows
  unshown _ _ := trivial
  unlisted _ _ := trivial
  made bare known inner := Content.spanned_iff.mpr ⟨known, bare, inner⟩

/-- Whether the spans of a part and of all that it is made of are known, and so are the values of
its nodes. -/
def TreePart.Settled (knowledge : Knowledge) (scope : Scope) (part : TreePart) : Prop :=
  part.Throughout fun inner => knowledge.span inner.place.span ∧
    ∀ tree strip, inner = .node tree → Yields knowledge.value (Evaluate.node scope strip tree)

variable {knowledge : Knowledge} {scope : Scope}

namespace TreePart.Settled

variable {part : TreePart} {tree : Node}

theorem here (settled : part.Settled knowledge scope) : knowledge.span part.place.span :=
  (settled part part.mem_subtree_self).1

theorem span (settled : (TreePart.node tree).Settled knowledge scope) : knowledge.span tree.span :=
  settled.here

theorem node (settled : (TreePart.node tree).Settled knowledge scope) (strip : Bool) :
    Yields knowledge.value (Evaluate.node scope strip tree) :=
  (settled _ (TreePart.node tree).mem_subtree_self).2 tree strip rfl

theorem of_part (settled : part.Settled knowledge scope) {inner : TreePart}
    (direct : inner ∈ part.parts) : inner.Settled knowledge scope :=
  Throughout.of_part settled direct

theorem of_nodes (settled : part.Settled knowledge scope) {nodes : List Node}
    (parts : part.parts = nodes.map .node) :
    ∀ expr ∈ nodes, (TreePart.node expr).Settled knowledge scope := by
  intro expr member
  apply settled.of_part
  rw [parts]
  exact List.mem_map_of_mem member

theorem of_only (settled : (TreePart.node tree).Settled knowledge scope) {expr : Node}
    (parts : tree.parts = [.node expr]) : (TreePart.node expr).Settled knowledge scope := by
  apply settled.of_part
  change .node expr ∈ tree.parts
  rw [parts]
  exact List.mem_cons_self

end TreePart.Settled

namespace Arguments.Of

variable {found : Arguments}

theorem put_named {name : String} {argument : Value × Span} (given : found.Of knowledge)
    (holds : knowledge.value argument.1 ∧ knowledge.span argument.2) :
    Arguments.Of knowledge { found with named := found.named.put name argument } :=
  ⟨given.call, given.positional,
    Entries.all_put
      (P := fun argument : Value × Span => knowledge.value argument.1 ∧ knowledge.span argument.2)
      given.named holds⟩

theorem putAll_named {later : Entries (Value × Span)} (given : found.Of knowledge)
    (holds : ∀ entry ∈ later, knowledge.value entry.2.1 ∧ knowledge.span entry.2.2) :
    Arguments.Of knowledge { found with named := found.named.putAll later } :=
  ⟨given.call, given.positional,
    Entries.all_putAll
      (P := fun argument : Value × Span => knowledge.value argument.1 ∧ knowledge.span argument.2)
      given.named holds⟩

theorem append_positional {later : List (Value × Span)} (given : found.Of knowledge)
    (holds : ∀ argument ∈ later, knowledge.value argument.1 ∧ knowledge.span argument.2) :
    Arguments.Of knowledge { found with positional := found.positional ++ later } :=
  ⟨given.call, List.forall_mem_append.mpr ⟨given.positional, holds⟩, given.named⟩

end Arguments.Of

namespace Evaluate

theorem placeable_lookup (placeable : scope.Placeable Known) (name : String) (span : Span) :
    Yields (Value.Placeable Known) (lookup scope name span) := by
  unfold lookup
  split
  · rename_i value found
    exact yields_pure (placeable.of_lookup found)
  · exact yields_stop _

theorem placeable_fieldOf {target : Value} (placeable : target.Placeable Known) (name : String)
    (span : Span) : Yields (Value.Placeable Known) (fieldOf target name span) := by
  unfold fieldOf
  split
  · rename_i entries
    split
    · rename_i value found
      exact yields_pure (Entries.of_lookup (Value.placeable_dict.mp placeable) found)
    · exact yields_stop _
  · exact yields_stop _

theorem placeable_applyFunction {arguments : Arguments} (function : Builtin)
    (given : arguments.Of (.placed Known)) :
    Yields (Value.Placeable Known) (applyFunction function arguments) := by
  have known := Builtin.known_of_call Knowledge.closed_placed function given
  unfold applyFunction
  cases called : function.call arguments with
  | ok content =>
      rw [called] at known
      exact yields_pure (Value.placeable_content.mpr known.placeable)
  | error halt => exact yields_stop _

theorem spanned_shownCall {callee : Content} {arguments : List Content} {argsSpan span : Span}
    (callee_spanned : callee.Spanned Known)
    (spanned : ∀ argument ∈ arguments, argument.Spanned Known) (args_known : Known argsSpan)
    (known : Known span) : (shownCall callee arguments argsSpan span).Spanned Known := by
  have group : (Content.lr (some (.plain "(" argsSpan)) (.sequence arguments argsSpan)
      (some (.plain ")" argsSpan)) argsSpan).Spanned Known := by
    have sequence := Content.spanned_sequence args_known spanned
    refine Content.spanned_iff.mpr ⟨args_known, rfl, ?_⟩
    simp [Content.inner, Content.spanned_plain, args_known, sequence]
  exact Content.spanned_sequence known (by simp [callee_spanned, group])

theorem yields_asBool (op : BinaryOp) (value : Value) (span : Span) :
    Yields (fun _ => True) (asBool op value span) :=
  fun _ _ => trivial

theorem Yields.recover {α : Type} {P : α → Prop} {evaluation : Evaluation α}
    (yields : Yields P evaluation) :
    Yields (fun found => ∀ value, found = some value → P value)
      (Evaluation.recover evaluation) := by
  intro found made value same
  unfold Evaluation.recover at made
  split at made
  · rename_i given
    cases made
    cases same
    exact yields value given
  · cases made
    cases same
  · cases made

theorem spanned_comma {isFirst : Bool} {span : Span} (known : Known span) :
    ∀ content ∈ comma isFirst span, content.Spanned Known := by
  cases isFirst <;> simp [comma, Content.spanned_plain, known]

theorem spanned_delimiter {opening : Delimiter} (known : Known opening.place.span) :
    (delimiter opening).Spanned Known :=
  Content.spanned_plain _ known

theorem spanned_displayed {expr : Node}
    (settled : (TreePart.node expr).Settled (.placed Known) scope) (strip : Bool) :
    Yields (Content.Spanned Known) (displayed (node scope strip expr) expr.span) := by
  exact (settled.node strip).bind fun value placeable =>
    Evaluation.yields_display placeable settled.span

theorem spanned_sequence {exprs : List Node}
    (settled : ∀ expr ∈ exprs, (TreePart.node expr).Settled (.placed Known) scope) :
    Yields (fun children => ∀ child ∈ children, child.Spanned Known) (sequence scope exprs) := by
  induction exprs with
  | nil =>
      rw [sequence]
      exact yields_pure (by simp)
  | cons expr rest induction =>
      obtain ⟨here, later⟩ := List.forall_mem_cons.mp settled
      rw [sequence]
      refine (Yields.recover (spanned_displayed here false)).bind ?_
      intro first first_spanned
      refine (induction later).bind ?_
      intro others spanned
      apply yields_pure
      intro child member
      rcases List.mem_append.mp member with isFirst | isOther
      · exact first_spanned child (Option.mem_toList.mp isFirst)
      · exact spanned child isOther

theorem spanned_script {expr : Option Node}
    (settled : ∀ tree ∈ expr.toList, (TreePart.node tree).Settled (.placed Known) scope) :
    Yields (fun shown => ∀ content ∈ shown.toList, content.Spanned Known) (script scope expr) := by
  cases expr with
  | none =>
      rw [script]
      exact yields_pure (by simp)
  | some expr =>
      have here := settled expr (by simp)
      rw [script]
      refine (spanned_displayed here true).bind ?_
      intro content spanned
      apply yields_pure
      simpa using spanned

theorem placeable_items {elements : List Node}
    (settled : ∀ element ∈ elements, (TreePart.node element).Settled (.placed Known) scope) :
    Yields (fun values => ∀ value ∈ values, value.Placeable Known) (items scope elements) := by
  induction elements with
  | nil =>
      rw [items]
      exact yields_pure (by simp)
  | cons element rest induction =>
      obtain ⟨here, later⟩ := List.forall_mem_cons.mp settled
      unfold items
      split
      · exact yields_pure (by simp)
      · rename_i expr place rest same
        obtain ⟨rfl, rfl⟩ := List.cons.inj same
        refine ((here.of_only rfl).node false).bind ?_
        intro value value_placeable
        split
        · refine (induction later).bind ?_
          intro values placeable
          apply yields_pure
          exact List.forall_mem_append.mpr ⟨Value.placeable_array.mp value_placeable, placeable⟩
        · exact yields_stop _
      · rename_i expr rest _ same
        obtain ⟨rfl, rfl⟩ := List.cons.inj same
        refine (here.node false).bind ?_
        intro value value_placeable
        refine (induction later).bind ?_
        intro values placeable
        exact yields_pure (List.forall_mem_cons.mpr ⟨value_placeable, placeable⟩)

theorem placeable_entries {found : Entries Value} {elements : List Node}
    (placeable : ∀ entry ∈ found, entry.2.Placeable Known)
    (settled : ∀ element ∈ elements, (TreePart.node element).Settled (.placed Known) scope) :
    Yields (fun values => ∀ entry ∈ values, entry.2.Placeable Known)
      (entries scope found elements) := by
  induction elements generalizing found with
  | nil =>
      rw [entries]
      exact yields_pure placeable
  | cons element rest induction =>
      obtain ⟨here, later⟩ := List.forall_mem_cons.mp settled
      unfold entries
      split
      · exact yields_pure placeable
      · rename_i name expr place rest same
        obtain ⟨rfl, rfl⟩ := List.cons.inj same
        refine ((here.of_only rfl).node false).bind ?_
        intro value value_placeable
        exact induction (Entries.all_put placeable value_placeable) later
      · rename_i key expr place rest same
        obtain ⟨rfl, rfl⟩ := List.cons.inj same
        have before : (TreePart.node key).Settled (.placed Known) scope :=
          here.of_part (by simp [TreePart.parts, Node.parts])
        have inside : (TreePart.node expr).Settled (.placed Known) scope :=
          here.of_part (by simp [TreePart.parts, Node.parts])
        refine (before.node false).bind ?_
        intro name _
        split
        · refine (inside.node false).bind ?_
          intro value value_placeable
          exact induction (Entries.all_put placeable value_placeable) later
        · exact yields_stop _
      · rename_i expr place rest same
        obtain ⟨rfl, rfl⟩ := List.cons.inj same
        refine ((here.of_only rfl).node false).bind ?_
        intro value value_placeable
        split
        · have inside := Value.placeable_dict.mp value_placeable
          exact induction (Entries.all_putAll placeable inside) later
        · exact yields_stop _
      · exact yields_stop _

theorem known_arguments (closed : knowledge.Closed) {found : Arguments} {args : List Node}
    (given : found.Of knowledge)
    (settled : ∀ arg ∈ args, (TreePart.node arg).Settled knowledge scope) :
    Yields (Arguments.Of knowledge) (arguments scope found args) := by
  induction args generalizing found with
  | nil =>
      rw [arguments]
      exact yields_pure given
  | cons arg rest induction =>
      obtain ⟨here, later⟩ := List.forall_mem_cons.mp settled
      unfold arguments
      split
      · exact yields_pure given
      · rename_i name expr place rest same
        obtain ⟨rfl, rfl⟩ := List.cons.inj same
        refine ((here.of_only rfl).node false).bind ?_
        intro value held
        exact induction (given.put_named ⟨held, here.span⟩) later
      · rename_i expr place rest same
        obtain ⟨rfl, rfl⟩ := List.cons.inj same
        refine ((here.of_only rfl).node false).bind ?_
        intro value held
        split
        · refine induction (given.append_positional ?_) later
          intro argument member
          obtain ⟨item, isItem, rfl⟩ := List.mem_map.mp member
          exact ⟨closed.item held isItem, here.span⟩
        · refine induction (given.putAll_named ?_) later
          intro argument member
          obtain ⟨entry, isEntry, rfl⟩ := List.mem_map.mp member
          exact ⟨closed.entry held isEntry, here.span⟩
        · exact yields_stop _
      · rename_i expr rest _ _ same
        obtain ⟨rfl, rfl⟩ := List.cons.inj same
        refine (here.node false).bind ?_
        intro value held
        refine induction (given.append_positional ?_) later
        exact List.forall_mem_singleton.mpr ⟨held, here.span⟩

theorem spanned_shownArgument {argsSpan : Span} {isFirst : Bool} {expr : Node}
    {rest : Evaluation (List Content)} (before : List Content) (known : Known argsSpan)
    (settled : (TreePart.node expr).Settled (.placed Known) scope)
    (before_spanned : ∀ content ∈ before, content.Spanned Known)
    (rest_spanned : Yields (fun contents => ∀ content ∈ contents, content.Spanned Known) rest) :
    Yields (fun contents => ∀ content ∈ contents, content.Spanned Known) (do
      let content ← displayed (node scope false expr) expr.span
      return comma isFirst argsSpan ++ (before ++ content :: (← rest))) := by
  refine (spanned_displayed settled false).bind ?_
  intro content here
  refine rest_spanned.bind ?_
  intro contents spanned
  apply yields_pure
  intro element member
  simp only [List.mem_append, List.mem_cons] at member
  rcases member with inComma | inBefore | rfl | inRest
  · exact spanned_comma known element inComma
  · exact before_spanned element inBefore
  · exact here
  · exact spanned element inRest

theorem spanned_shown {argsSpan : Span} {isFirst : Bool} {args : List Node}
    (known : Known argsSpan)
    (settled : ∀ arg ∈ args, (TreePart.node arg).Settled (.placed Known) scope) :
    Yields (fun contents => ∀ content ∈ contents, content.Spanned Known)
      (shown scope argsSpan isFirst args) := by
  induction args generalizing isFirst with
  | nil =>
      rw [shown]
      exact yields_pure (by simp)
  | cons arg rest induction =>
      obtain ⟨here, later⟩ := List.forall_mem_cons.mp settled
      unfold shown
      split
      · exact yields_pure (by simp)
      · rename_i name expr place rest same
        obtain ⟨rfl, rfl⟩ := List.cons.inj same
        refine spanned_shownArgument [_] known (here.of_only rfl) ?_ (induction later)
        have place_known : Known place.span := here.span
        simp [Content.spanned_text, place_known]
      · rename_i expr place rest same
        obtain ⟨rfl, rfl⟩ := List.cons.inj same
        exact spanned_shownArgument [] known (here.of_only rfl) (by simp) (induction later)
      · rename_i expr rest _ _ same
        obtain ⟨rfl, rfl⟩ := List.cons.inj same
        exact spanned_shownArgument [] known here (by simp) (induction later)

section

variable {place : Place} {strip : Bool}

theorem placeable_delimited {opening closing : Delimiter} {body : List Node} {bodyPlace : Place}
    (known : Known place.span)
    (settled : ∀ inner ∈ (Node.delimited opening body bodyPlace closing place).parts,
      inner.Settled (.placed Known) scope) :
    Yields (Value.Placeable Known)
      (node scope strip (.delimited opening body bodyPlace closing place)) := by
  have opening_settled := settled (.node opening.node) (by simp [Node.parts])
  have body_settled := settled (.node (.math body bodyPlace)) (by simp [Node.parts])
  have closing_settled := settled (.node closing.node) (by simp [Node.parts])
  rw [node]
  refine (spanned_sequence (body_settled.of_nodes rfl)).bind ?_
  intro children spanned
  have body_spanned := Content.spanned_sequence body_settled.here spanned
  dsimp only
  split
  · apply yields_pure
    exact Value.placeable_content.mpr body_spanned.placeable
  · apply yields_pure
    refine Value.placeable_content.mpr ⟨.inr known, rfl, ?_⟩
    simpa [Content.inner] using ⟨spanned_delimiter opening_settled.here, body_spanned,
      spanned_delimiter closing_settled.here⟩

theorem placeable_attach {base : Node} {bottom top : Option Node} {marks : Option Primes}
    (known : Known place.span)
    (settled : ∀ inner ∈ (Node.attach base bottom top marks place).parts,
      inner.Settled (.placed Known) scope) :
    Yields (Value.Placeable Known) (node scope strip (.attach base bottom top marks place)) := by
  have base_settled := settled (.node base) (by simp [Node.parts])
  have bottom_settled :
      ∀ expr ∈ bottom.toList, (TreePart.node expr).Settled (.placed Known) scope := by
    intro expr member
    apply settled
    simp [Node.parts, Option.mem_toList.mp member]
  have top_settled : ∀ expr ∈ top.toList, (TreePart.node expr).Settled (.placed Known) scope := by
    intro expr member
    apply settled
    simp [Node.parts, Option.mem_toList.mp member]
  rw [node]
  refine (spanned_displayed base_settled false).bind ?_
  intro core core_spanned
  refine (spanned_script top_settled).bind ?_
  intro above above_spanned
  refine (spanned_script bottom_settled).bind ?_
  intro below below_spanned
  apply yields_pure
  refine Value.placeable_content.mpr ⟨.inr known, rfl, ?_⟩
  intro element member
  simp only [Content.inner, List.mem_cons, List.mem_append] at member
  rcases member with ((rfl | inTop) | inBottom) | inMarks
  · exact core_spanned
  · exact above_spanned element inTop
  · exact below_spanned element inBottom
  · cases marks with
    | none => cases inMarks
    | some run =>
        have marks_settled := settled (.node (.primes run)) (by simp [Node.parts])
        rw [Option.map_some, Option.toList_some, List.mem_singleton] at inMarks
        rw [inMarks]
        exact Content.spanned_iff.mpr ⟨marks_settled.here, rfl, by simp [Content.inner]⟩

theorem placeable_call {callee : Node} {args : List Node} {argsPlace : Place}
    (known : Known place.span)
    (settled : ∀ inner ∈ (Node.call callee args argsPlace place).parts,
      inner.Settled (.placed Known) scope) :
    Yields (Value.Placeable Known) (node scope strip (.call callee args argsPlace place)) := by
  have callee_settled := settled (.node callee) (by simp [Node.parts])
  have args_settled := settled (.arguments args argsPlace) (by simp [Node.parts])
  rw [node]
  refine (callee_settled.node false).bind ?_
  intro value placeable
  split
  · have none_yet : Arguments.Of (.placed Known) ⟨place.span, [], []⟩ :=
      ⟨known, by simp, by simp⟩
    refine (known_arguments Knowledge.closed_placed none_yet (args_settled.of_nodes rfl)).bind ?_
    intro taken given
    exact placeable_applyFunction _ given
  · split
    · refine (spanned_shown args_settled.here (args_settled.of_nodes rfl)).bind ?_
      intro contents spanned
      refine (Evaluation.yields_display placeable callee_settled.span).bind ?_
      intro name name_spanned
      apply yields_pure
      refine Value.placeable_content.mpr (Content.Spanned.placeable ?_)
      exact spanned_shownCall name_spanned spanned args_settled.here known
    · exact yields_stop _

theorem placeable_binary {lhs rhs : Node} {op : BinaryOp} (known : Known place.span)
    (settled : ∀ inner ∈ (Node.binary lhs op rhs place).parts,
      inner.Settled (.placed Known) scope) :
    Yields (Value.Placeable Known) (node scope strip (.binary lhs op rhs place)) := by
  have lhs_settled := settled (.node lhs) (by simp [Node.parts])
  have rhs_settled := settled (.node rhs) (by simp [Node.parts])
  rw [node]
  refine (lhs_settled.node false).bind ?_
  intro left left_placeable
  split
  · refine (yields_asBool op left place.span).bind ?_
    intro truth _
    split
    · exact yields_pure (Value.placeable_of_no_contents rfl)
    · refine (rhs_settled.node false).bind ?_
      intro right _
      refine (yields_asBool op right place.span).bind ?_
      intro other _
      exact yields_pure (Value.placeable_of_no_contents rfl)
  · refine (rhs_settled.node false).bind ?_
    intro right right_placeable
    exact op.placeable_apply left_placeable right_placeable lhs_settled.span
      rhs_settled.span known

end

theorem placeable_node (defined : scope.Placeable Known) {tree : Node} (known : Known tree.span)
    (settled : ∀ inner ∈ tree.parts, inner.Settled (.placed Known) scope) (strip : Bool) :
    Yields (Value.Placeable Known) (node scope strip tree) := by
  cases tree with
  | math exprs place =>
      rw [node]
      have exprs_settled : ∀ expr ∈ exprs, (TreePart.node expr).Settled (.placed Known) scope :=
        fun expr member => settled _ (List.mem_map_of_mem member)
      refine (spanned_sequence exprs_settled).bind ?_
      intro children spanned
      apply yields_pure
      exact Value.placeable_content.mpr (Content.spanned_sequence known spanned).placeable
  | text written place | shorthand written symbol place =>
      rw [node]
      apply yields_pure
      exact Value.placeable_content.mpr (Content.spanned_plain _ known).placeable
  | mathIdent name place | ident name place =>
      rw [node]
      exact placeable_lookup defined name place.span
  | alignPoint place | linebreak place | primes marks =>
      rw [node]
      apply yields_pure
      exact Value.placeable_content.mpr ⟨.inr known, rfl, by simp [Content.inner]⟩
  | delimited => exact placeable_delimited known settled
  | attach => exact placeable_attach known settled
  | frac num denom place =>
      have num_settled := settled (.node num) (by simp [Node.parts])
      have denom_settled := settled (.node denom) (by simp [Node.parts])
      rw [node]
      refine (spanned_displayed num_settled true).bind ?_
      intro above above_spanned
      refine (spanned_displayed denom_settled true).bind ?_
      intro below below_spanned
      apply yields_pure
      refine Value.placeable_content.mpr ⟨.inr known, rfl, ?_⟩
      simpa [Content.inner] using ⟨above_spanned, below_spanned⟩
  | root degree radicand place =>
      have radicand_settled := settled (.node radicand) (by simp [Node.parts])
      have place_known : Known place.span := known
      rw [node]
      refine (spanned_displayed radicand_settled true).bind ?_
      intro body spanned
      apply yields_pure
      refine Value.placeable_content.mpr ⟨.inr known, rfl, ?_⟩
      cases degree with
      | none => simpa [Content.inner] using spanned
      | some degree => simp [Content.inner, Content.spanned_plain, place_known, spanned]
  | int | float | str | bool | noneLit | autoLit =>
      rw [node]
      exact yields_pure (Value.placeable_of_no_contents rfl)
  | parenthesized expr place =>
      have expr_settled := settled (.node expr) (by simp [Node.parts])
      rw [node]
      exact expr_settled.node false
  | array elements place =>
      rw [node]
      have elements_settled :
          ∀ expr ∈ elements, (TreePart.node expr).Settled (.placed Known) scope :=
        fun expr member => settled _ (List.mem_map_of_mem member)
      refine (placeable_items elements_settled).bind ?_
      intro values placeable
      exact yields_pure (Value.placeable_array.mpr placeable)
  | dict elements place =>
      rw [node]
      have elements_settled :
          ∀ expr ∈ elements, (TreePart.node expr).Settled (.placed Known) scope :=
        fun expr member => settled _ (List.mem_map_of_mem member)
      refine (placeable_entries (by simp) elements_settled).bind ?_
      intro values placeable
      exact yields_pure (Value.placeable_dict.mpr placeable)
  | contentBlock body bodyPlace place =>
      have body_settled := settled (.node (.math body bodyPlace)) (by simp [Node.parts])
      rw [node]
      refine (spanned_sequence (body_settled.of_nodes rfl)).bind ?_
      intro children spanned
      apply yields_pure
      exact Value.placeable_content.mpr
        (Content.spanned_sequence body_settled.here spanned).placeable
  | call => exact placeable_call known settled
  | field target name place =>
      have target_settled := settled (.node target) (by simp [Node.parts])
      rw [node]
      refine (target_settled.node false).bind ?_
      intro value placeable
      exact placeable_fieldOf placeable name place.span
  | binary => exact placeable_binary known settled
  | unary op expr place =>
      have expr_settled := settled (.node expr) (by simp [Node.parts])
      rw [node]
      refine (expr_settled.node false).bind ?_
      intro value placeable
      exact op.placeable_apply placeable
  | named | keyed | spread =>
      rw [node]
      exact yields_stop _

end Evaluate

theorem TreePart.settled (defined : scope.Placeable Known) {part : TreePart}
    (known : ∀ inner ∈ part.subtree, Known inner.place.span) :
    part.Settled (.placed Known) scope := by
  refine throughout fun inner member below => ?_
  have here := known inner member
  refine ⟨here, ?_⟩
  rintro tree strip rfl
  exact Evaluate.placeable_node defined here below strip

theorem Formula.exists_contents_of_evaluate {formula : Formula} {content : Content}
    (evaluated : formula.evaluate scope = .ok content) :
    ∃ children, (Evaluate.sequence scope formula.exprs).reports = [] ∧
      (Evaluate.sequence scope formula.exprs).result = .ok children ∧
      content = .sequence children formula.place.span := by
  unfold evaluate at evaluated
  dsimp only at evaluated
  split at evaluated
  · rename_i children given
    split at evaluated
    · rename_i silent
      cases evaluated
      exact ⟨children, List.isEmpty_iff.mp silent, given, rfl⟩
    · cases evaluated
  · cases evaluated
  · cases evaluated

theorem Formula.spanned_evaluate (defined : scope.Placeable Known) {formula : Formula}
    (known : ∀ part ∈ formula.node.subtree, Known part.place.span) {content : Content}
    (evaluated : formula.evaluate scope = .ok content) : content.Spanned Known := by
  have settled : (TreePart.node formula.node).Settled (.placed Known) scope :=
    TreePart.settled defined known
  have exprs_settled : ∀ expr ∈ formula.exprs, (TreePart.node expr).Settled (.placed Known) scope :=
    fun expr member => settled.of_part (List.mem_map_of_mem member)
  obtain ⟨children, -, made, rfl⟩ := exists_contents_of_evaluate evaluated
  refine Content.spanned_sequence settled.here ?_
  exact Evaluate.spanned_sequence exprs_settled children made

end EquationMap
