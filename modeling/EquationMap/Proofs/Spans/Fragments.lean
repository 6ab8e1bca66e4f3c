import Mathlib.Data.List.Forall2
import EquationMap.Proofs.Spans.Evaluation
import EquationMap.Proofs.Spans.Layout
import EquationMap.Proofs.Tree.Containment
import EquationMap.Rendering

namespace EquationMap

variable {Known : Span → Prop} {α : Type} [Length α] {resolver : Resolver}

/-- The part of the source that a figure shows. -/
def Figure.range? (resolver : Resolver) : Figure α → Option ByteRange
  | run drawn => Fragment.runRange? resolver drawn.glyphs
  | shape _ span => resolver span

def Resolver.Resolves (resolver : Resolver) (size : Nat) (span : Span) : Prop :=
  ∃ range, resolver span = some range ∧ range.stop ≤ size

theorem Fragment.stop_foldl_join {first : ByteRange} {rest : List ByteRange} {size : Nat}
    (first_le : first.stop ≤ size) (rest_le : ∀ range ∈ rest, range.stop ≤ size) :
    (rest.foldl join first).stop ≤ size := by
  refine List.foldlRecOn (motive := fun joined => joined.stop ≤ size) rest join first_le ?_
  intro joined joined_le range member
  exact Nat.max_le.mpr ⟨joined_le, rest_le range member⟩

theorem Figure.range_of_sourced {size : Nat} {figure : Figure α}
    (sourced : figure.Sourced (resolver.Resolves size)) :
    ∃ range, figure.range? resolver = some range ∧ range.stop ≤ size := by
  cases figure with
  | shape drawn span => exact sourced
  | run drawn =>
      obtain ⟨nonempty, known⟩ := sourced
      have bounded : ∀ range ∈ drawn.glyphs.filterMap fun glyph => resolver glyph.span,
          range.stop ≤ size := by
        intro range member
        obtain ⟨glyph, isGlyph, resolved⟩ := List.mem_filterMap.mp member
        obtain ⟨own, own_resolved, le⟩ := known glyph isGlyph
        rw [Option.some.inj (resolved.symm.trans own_resolved)]
        exact le
      rw [range?, Fragment.runRange?]
      split
      · rename_i none_resolved
        obtain ⟨glyph, others, glyphs⟩ := List.exists_cons_of_ne_nil nonempty
        obtain ⟨own, own_resolved, _⟩ := known glyph (by simp [glyphs])
        have unresolved := List.filterMap_eq_nil_iff.mp none_resolved glyph (by simp [glyphs])
        cases own_resolved.symm.trans unresolved
      · rename_i first rest resolved
        rw [resolved] at bounded
        obtain ⟨first_le, rest_le⟩ := List.forall_mem_cons.mp bounded
        exact ⟨_, rfl, Fragment.stop_foldl_join first_le rest_le⟩

/-- Whether a fragment shows the part of the source that a figure shows. -/
def Figure.Makes (resolver : Resolver) (size : Nat) (figure : Figure α)
    (fragment : Fragment α) : Prop :=
  figure.range? resolver = some fragment.range ∧ fragment.range.stop ≤ size

theorem Fragment.made_ofItems {size : Nat} {items : List (Item α)}
    (sourced : ∀ figure ∈ Item.figuresOfList items, figure.Sourced (resolver.Resolves size))
    (offset : Point α) :
    List.Forall₂ (Figure.Makes resolver size) (Item.figuresOfList items)
      (ofItems resolver offset items) := by
  fun_induction ofItems resolver offset items with
  | case1 offset => exact .nil
  | case2 offset position size baseline inner rest inner_made rest_made =>
      rw [Item.figuresOfList, Item.figures] at sourced ⊢
      obtain ⟨inside, later⟩ := List.forall_mem_append.mp sourced
      exact List.rel_append (inner_made inside) (rest_made later)
  | case3 offset position run rest range found rest_made =>
      rw [Item.figuresOfList, Item.figures, List.singleton_append] at sourced ⊢
      obtain ⟨here, later⟩ := List.forall_mem_cons.mp sourced
      refine .cons ?_ (rest_made later)
      obtain ⟨own, own_found, le⟩ := Figure.range_of_sourced here
      have same : own = range := Option.some.inj (own_found.symm.trans found)
      exact ⟨found, same ▸ le⟩
  | case4 offset position run rest missing rest_made =>
      have here := sourced (.run run) (by simp [Item.figuresOfList, Item.figures])
      obtain ⟨own, own_found, le⟩ := Figure.range_of_sourced here
      cases own_found.symm.trans missing
  | case5 offset position shape span rest range found rest_made =>
      rw [Item.figuresOfList, Item.figures, List.singleton_append] at sourced ⊢
      obtain ⟨here, later⟩ := List.forall_mem_cons.mp sourced
      refine .cons ?_ (rest_made later)
      obtain ⟨own, own_found, le⟩ := Figure.range_of_sourced here
      have same : own = range := Option.some.inj (own_found.symm.trans found)
      exact ⟨found, same ▸ le⟩
  | case6 offset position shape span rest missing rest_made =>
      have here := sourced (.shape shape span) (by simp [Item.figuresOfList, Item.figures])
      obtain ⟨own, own_found, le⟩ := Figure.range_of_sourced here
      cases own_found.symm.trans missing
  | case7 offset position kind span rest rest_made =>
      rw [Item.figuresOfList, Item.figures, List.nil_append] at sourced ⊢
      exact rest_made sourced

theorem Frame.made_fragments {size : Nat} {frame : Frame α}
    (sourced : frame.Sourced (resolver.Resolves size)) (offset : Point α) :
    List.Forall₂ (Figure.Makes resolver size) frame.figures
      (frame.fragments resolver offset) := by
  rw [Sourced, figures, ← Item.figuresOfList_eq] at *
  exact Fragment.made_ofItems sourced offset

theorem Figure.stop_of_makes {size : Nat} {figures : List (Figure α)}
    {fragments : List (Fragment α)}
    (makes : List.Forall₂ (Figure.Makes resolver size) figures fragments) :
    ∀ fragment ∈ fragments, fragment.range.stop ≤ size := by
  induction makes with
  | nil => simp
  | cons here _ induction => exact List.forall_mem_cons.mpr ⟨here.2, induction⟩

theorem Figure.exists_fragment_of_makes {size : Nat} {figures : List (Figure α)}
    {fragments : List (Fragment α)}
    (makes : List.Forall₂ (Figure.Makes resolver size) figures fragments) :
    ∀ figure ∈ figures, ∃ fragment ∈ fragments, figure.range? resolver = some fragment.range := by
  induction makes with
  | nil => simp
  | cons here _ induction =>
      refine List.forall_mem_cons.mpr ⟨⟨_, List.mem_cons_self, here.1⟩, ?_⟩
      intro figure member
      obtain ⟨fragment, isFragment, shows⟩ := induction figure member
      exact ⟨fragment, List.mem_cons_of_mem _ isFragment, shows⟩

namespace Subexpression

theorem fragments_recordOf? {fragments : List (Fragment α)} {entry : Entry}
    {found : Subexpression α} (recorded : recordOf? fragments entry = some found) :
    found.range = entry.range ∧
      found.fragments =
        (fragments.filter fun fragment => entry.range.contains fragment.range).length := by
  unfold recordOf? at recorded
  split at recorded
  · cases recorded
  · rename_i first rest boxes
    cases recorded
    have count := congrArg List.length boxes
    rw [List.length_map] at count
    exact ⟨rfl, count.symm⟩

theorem exists_recordOf? {fragments : List (Fragment α)} {entry : Entry}
    {fragment : Fragment α} (member : fragment ∈ fragments)
    (inside : entry.range.contains fragment.range = true) :
    ∃ found, recordOf? fragments entry = some found := by
  unfold recordOf?
  split
  · rename_i none_inside
    have here := List.mem_map_of_mem (f := Fragment.box)
      (List.mem_filter (p := fun fragment => entry.range.contains fragment.range).mpr
        ⟨member, inside⟩)
    rw [none_inside] at here
    cases here
  · exact ⟨_, rfl⟩

/-- If the first entry holds all fragments, and there are some, the first record counts them
all. -/
theorem correlate_first {fragments : List (Fragment α)} {first : Entry} (rest : List Entry)
    (all : ∀ fragment ∈ fragments, first.range.contains fragment.range = true)
    (some_made : fragments ≠ []) :
    ∃ root others, correlate (first :: rest) fragments = root :: others ∧
      root.range = first.range ∧ root.fragments = fragments.length ∧
      ∀ other ∈ others, other.fragments ≤ root.fragments := by
  obtain ⟨fragment, more, split⟩ := List.exists_cons_of_ne_nil some_made
  have member : fragment ∈ fragments := by simp [split]
  obtain ⟨root, recorded⟩ := exists_recordOf? member (all fragment member)
  obtain ⟨range, count⟩ := fragments_recordOf? recorded
  rw [List.filter_eq_self.mpr all] at count
  refine ⟨root, correlate rest fragments, ?_, range, count, ?_⟩
  · rw [correlate, List.filterMap_cons, recorded]
    rfl
  · intro other isOther
    obtain ⟨entry, _, other_recorded⟩ := List.mem_filterMap.mp isOther
    rw [(fragments_recordOf? other_recorded).2, count]
    exact List.length_filter_le _ _

end Subexpression

namespace Source

variable {text : String} {source : Source}

theorem exists_formula_of_ofText (read : Source.ofText text = .ok source) :
    ∃ formula, Formula.ofText text = .ok formula ∧ source.text = text ∧
      formula.number mainFile .full = .ok (source.formula, source.spans) := by
  unfold ofText at read
  split at read
  · cases read
  · rename_i formula parsed
    split at read
    · cases read
    · rename_i numbered spans made
      cases read
      exact ⟨formula, parsed, rfl, made⟩

theorem resolves_of_ofText (read : Source.ofText text = .ok source) :
    ∀ part ∈ source.formula.node.subtree,
      source.resolver.Resolves (Text.byteLength text.toList) part.place.span := by
  obtain ⟨formula, parsed, -, made⟩ := exists_formula_of_ofText read
  obtain ⟨tidy, _, root_stop⟩ := Formula.tidy_of_ofText parsed
  intro part member
  obtain ⟨original, found, same⟩ := Formula.exists_part_of_numbered made member
  refine ⟨part.range, Formula.number_resolves made member, ?_⟩
  have inside := ByteRange.contains_iff.mp (tidy.contains original found)
  have root : formula.node.range.stop = Text.byteLength text.toList := root_stop
  rw [← same]
  omega

theorem resolver_root (read : Source.ofText text = .ok source) :
    ∃ range, source.resolver source.formula.node.place.span = some range ∧ range.start = 0 ∧
      range.stop = Text.byteLength text.toList := by
  obtain ⟨formula, parsed, -, made⟩ := exists_formula_of_ofText read
  obtain ⟨-, root_start, root_stop⟩ := Formula.tidy_of_ofText parsed
  exact ⟨formula.node.range, Formula.resolve_root made, root_start, root_stop⟩

theorem formula_evaluate {scope : Scope} {content : Content}
    (evaluated : source.evaluate scope = .ok content) :
    source.formula.evaluate scope = .ok content := by
  unfold evaluate at evaluated
  split at evaluated
  · rename_i made
    cases evaluated
    exact made
  · cases evaluated

theorem spanned_of_known (known : ∀ part ∈ source.formula.node.subtree, Known part.place.span)
    {content : Content} (evaluated : source.evaluate globalScope = .ok content) :
    content.Spanned Known := by
  refine Formula.spanned_evaluate ?_ known (formula_evaluate evaluated)
  intro level isLevel entry member
  simp only [globalScope, List.mem_cons, List.not_mem_nil, or_false] at isLevel
  rcases isLevel with rfl | rfl
  · cases member
  · exact Library.placeable_entries entry member

theorem spanned_evaluate (read : Source.ofText text = .ok source) {content : Content}
    (evaluated : source.evaluate globalScope = .ok content) :
    content.Spanned (source.resolver.Resolves (Text.byteLength text.toList)) :=
  spanned_of_known (resolves_of_ofText read) evaluated

section

variable {content : Content} {styles : Styles α} {region : Region α} {frame : Frame α}

theorem block_of_layout (laid : source.layout content styles region = .ok frame) :
    Layout.block content source.formula.place.span styles region = .ok frame := by
  unfold layout at laid
  split at laid
  · rename_i made
    cases laid
    exact made
  · cases laid

theorem sourced_layout (spanned : content.Spanned Known)
    (laid : source.layout content styles region = .ok frame) : frame.Sourced Known :=
  Layout.sourced_block spanned (block_of_layout laid)

end

end Source

theorem exists_stages_of_typeset {text : String} {formula : Typeset α}
    (made : typeset text = .ok formula) :
    Source.ofText text = .ok formula.source ∧
      formula.source.evaluate globalScope = .ok formula.content ∧
      formula.source.layout formula.content Styles.standard {} = .ok formula.frame := by
  unfold typeset at made
  cases read : Source.ofText text with
  | error failure =>
      rw [read] at made
      cases made
  | ok source =>
      rw [read] at made
      cases evaluated : source.evaluate globalScope with
      | error failure =>
          simp only [evaluated, bind, Except.bind] at made
          cases made
      | ok content =>
          simp only [evaluated, bind, Except.bind] at made
          split at made
          · cases made
          · rename_i frame laid
            cases made
            exact ⟨rfl, evaluated, laid⟩

/-- All content of a formula has spans that resolve. So every run and every shape that is laid
out makes one fragment, and the first record is that of the whole text, with all fragments. -/
theorem figures_located (text : String) :
    (∀ source content, Source.ofText text = .ok source →
      source.evaluate globalScope = .ok content →
      ∀ element ∈ content.elements, ∃ range, source.resolver element.span = some range) ∧
    ∀ {α : Type} [Length α] (formula : Typeset α), typeset text = .ok formula →
      List.Forall₂
        (fun figure fragment =>
          figure.range? formula.source.resolver = some fragment.range)
        formula.frame.figures (formula.frame.fragments formula.source.resolver .origin) ∧
      (formula.frame.figures ≠ [] →
        ∃ root others, formula.subexpressions = root :: others ∧ root.range.start = 0 ∧
          root.range.stop = Text.byteLength text.toList ∧
          root.fragments = formula.frame.figures.length ∧
          ∀ other ∈ others, other.fragments ≤ root.fragments) := by
  constructor
  · intro source content read evaluated element member
    obtain ⟨⟨range, resolved, -⟩, -⟩ := Source.spanned_evaluate read evaluated element member
    exact ⟨range, resolved⟩
  · intro α _ formula made
    obtain ⟨read, evaluated, laid⟩ := exists_stages_of_typeset made
    have spanned := Source.spanned_evaluate read evaluated
    have makes := Frame.made_fragments (Source.sourced_layout spanned laid) .origin
    refine ⟨makes.imp fun figure fragment makes => makes.1, ?_⟩
    intro some_drawn
    have count := makes.length_eq
    obtain ⟨range, resolved, root_start, root_stop⟩ := Source.resolver_root read
    obtain ⟨-, -, same_text, -⟩ := Source.exists_formula_of_ofText read
    have inText : range.stop ≤ Text.byteLength formula.source.text.toList :=
      Nat.le_of_eq (by rw [same_text, root_stop])
    obtain ⟨first, rest, entries, first_range⟩ := Node.exists_entries_eq resolved inText
    -- The first entry is the whole text, so it contains all fragments.
    have all : ∀ fragment ∈ formula.frame.fragments formula.source.resolver .origin,
        first.range.contains fragment.range = true := by
      intro fragment member
      have le := Figure.stop_of_makes makes fragment member
      rw [ByteRange.contains_iff, first_range]
      omega
    have some_made : formula.frame.fragments formula.source.resolver .origin ≠ [] := by
      intro none_made
      rw [none_made, List.length_nil] at count
      exact some_drawn (List.eq_nil_of_length_eq_zero count)
    obtain ⟨root, others, records, root_range, fragments, least⟩ :=
      Subexpression.correlate_first rest all some_made
    refine ⟨root, others, ?_, ?_, ?_, ?_, least⟩
    · rw [Typeset.subexpressions, Source.entries, entries]
      exact records
    · rw [root_range, first_range]
      exact root_start
    · rw [root_range, first_range]
      exact root_stop
    · rw [fragments, count]

/-- A fraction with an operator of the library, a matrix of values spread into an array, and a
call of a symbol, which is shown as it is written. -/
theorem figures_located_of_matrix :
    ∃ formula : Typeset Rat,
      typeset "frac(sin x, √y) mat(#(..(1, none), [b]); oo) pi(k: 2)" = .ok formula ∧
      (∀ element ∈ formula.content.elements,
        ∃ range, formula.source.resolver element.span = some range) ∧
      formula.frame.figures.length = 15 ∧
      ∃ root others, formula.subexpressions = root :: others ∧ root.fragments = 15 := by
  have evaluated :
      ((typeset "frac(sin x, √y) mat(#(..(1, none), [b]); oo) pi(k: 2)" :
        Except Failure (Typeset Rat)).toOption.any
          fun formula => formula.frame.figures.length = 15) = true := by
    decide +kernel
  cases made : (typeset "frac(sin x, √y) mat(#(..(1, none), [b]); oo) pi(k: 2)" :
      Except Failure (Typeset Rat)) with
  | error failure =>
      rw [made] at evaluated
      cases evaluated
  | ok formula =>
      rw [made] at evaluated
      have count : formula.frame.figures.length = 15 := of_decide_eq_true evaluated
      obtain ⟨content_resolves, located⟩ :=
        figures_located "frac(sin x, √y) mat(#(..(1, none), [b]); oo) pi(k: 2)"
      obtain ⟨read, content_made, _⟩ := exists_stages_of_typeset made
      obtain ⟨_, first⟩ := located formula made
      have some_drawn : formula.frame.figures ≠ [] := by
        intro none_drawn
        rw [none_drawn] at count
        cases count
      obtain ⟨root, others, records, _, _, fragments, _⟩ := first some_drawn
      refine ⟨formula, rfl, content_resolves _ _ read content_made, count, root, others,
        records, ?_⟩
      rw [fragments, count]

end EquationMap
