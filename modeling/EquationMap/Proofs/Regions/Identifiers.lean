import EquationMap.Proofs.Display.Nodes
import EquationMap.Proofs.Spans.Fragments

namespace EquationMap

/-! The regions of identifiers. A symbol or an operator of the library takes the span of the
identifier where it is displayed, and so it is drawn within the range of the identifier. As a cell
of a matrix it takes the span of the row instead. -/

namespace Value

def IsSymbolic : Value → Prop
  | symbol _ _ | content (.op _ _ _) => True
  | _ => False

/-- Whether a value writes something wherever it is put, at the span it is given there. -/
structure WritesAnywhere (value : Value) : Prop where
  stays : value.Stays
  shown : ∀ span, ∃ shown, value.display span = .ok shown ∧ shown.span = span ∧
    ∃ text ∈ shown.texts, text ≠ ""

theorem writesAnywhere_symbol {text : String} (nonempty : text ≠ "") (limits : Bool) :
    (symbol text limits).WritesAnywhere where
  stays := trivial
  shown _ := ⟨_, rfl, rfl, text, List.mem_singleton_self _, nonempty⟩

theorem writesAnywhere_operator {text : String} (nonempty : text ≠ "") (limits : Bool) :
    (content (.op text limits .detached)).WritesAnywhere where
  stays := trivial
  shown _ := ⟨_, rfl, rfl, text, List.mem_singleton_self _, nonempty⟩

end Value

open Value in
theorem Library.writesAnywhere_entries :
    ∀ entry ∈ entries, entry.2.IsSymbolic → entry.2.WritesAnywhere := by
  have small : ∀ entry ∈ greek ++ symbols, entry.2 ≠ "" := by decide +kernel
  have large : ∀ entry ∈ largeOperators, entry.2.1 ≠ "" := by decide
  have named : ∀ name ∈ operators, name ≠ "" := by decide
  have limits : ∀ entry ∈ limitOperators, entry.2 ≠ "" := by decide
  intro entry member symbolic
  simp only [entries, List.mem_append, List.mem_map] at member
  rcases member with (((⟨_, among, rfl⟩ | ⟨_, among, rfl⟩) | ⟨_, among, rfl⟩) |
    ⟨_, among, rfl⟩) | ⟨_, _, rfl⟩
  · exact writesAnywhere_symbol (small _ (List.mem_append.mpr among)) false
  · exact writesAnywhere_symbol (large _ among) _
  · exact writesAnywhere_operator (named _ among) false
  · exact writesAnywhere_operator (limits _ among) true
  · exact symbolic.elim

variable {α : Type} {resolver : Resolver} {text : String}

theorem Fragment.runRange_of_span {glyphs : List (Glyph α)} {span : Span} {range : ByteRange}
    (nonempty : glyphs ≠ []) (same : ∀ glyph ∈ glyphs, glyph.span = span)
    (resolved : resolver span = some range) : runRange? resolver glyphs = some range := by
  have all : ∀ found ∈ glyphs.filterMap fun glyph => resolver glyph.span, found = range := by
    intro found member
    obtain ⟨glyph, isGlyph, own⟩ := List.mem_filterMap.mp member
    rw [same glyph isGlyph] at own
    exact Option.some.inj (own.symm.trans resolved)
  obtain ⟨glyph, others, rfl⟩ := List.exists_cons_of_ne_nil nonempty
  have split : (glyph :: others).filterMap (fun glyph => resolver glyph.span) =
      range :: others.filterMap fun glyph => resolver glyph.span := by
    refine List.filterMap_cons_some ?_
    rw [same glyph List.mem_cons_self, resolved]
  rw [split] at all
  rw [runRange?, split]
  refine congrArg some (List.foldlRecOn (motive := fun joined => joined = range) _ _ rfl ?_)
  intro joined same_joined other isOther
  rw [same_joined, all other (List.mem_cons_of_mem _ isOther)]
  simp [join]

variable [Length α]

theorem Figure.range_of_drawn {figure : Figure α} {fill : Option Color} {thing : Drawn}
    {range : ByteRange} (proper : figure.Proper fill) (member : thing ∈ figure.drawn)
    (resolved : resolver thing.span = some range) : figure.range? resolver = some range := by
  cases figure with
  | shape drawn span =>
      rw [List.mem_singleton.mp member] at resolved
      exact resolved
  | run made =>
      obtain ⟨-, nonempty, span, same⟩ := proper
      obtain ⟨glyph, isGlyph, rfl⟩ := List.mem_map.mp member
      have own : glyph.span = span := same glyph isGlyph
      exact Fragment.runRange_of_span nonempty same (own ▸ resolved)

theorem Content.exists_drawn_of_text {content element : Content} {faces : List (FontFace α)}
    {written : String} (covered : content.Covered faces) (member : element ∈ content.elements)
    (writes : written ∈ element.texts) (nonempty : written ≠ "") :
    ∃ thing ∈ content.display faces, thing.span = element.span := by
  obtain ⟨first, rest, letters⟩ :=
    List.exists_cons_of_ne_nil (mt String.toList_eq_nil_iff.mp nonempty)
  have set : FontFace.set faces written element.span =
      Drawn.marksFrom element.span 0 (first :: rest) := by
    rw [FontFace.set, if_pos (covered element member written writes), letters]
  refine ⟨.mark first.toString element.span 0, ?_, rfl⟩
  refine mem_sum_map_iff.mpr ⟨element, member, Multiset.mem_add.mpr (.inl ?_)⟩
  refine mem_sum_map_iff.mpr ⟨written, writes, ?_⟩
  rw [set, Drawn.marksFrom_cons]
  exact List.mem_cons_self

theorem Source.resolver_of_reached {source : Source} (read : Source.ofText text = .ok source)
    {node : Node} (reaches : source.formula.node.Reaches node) :
    source.resolver node.place.span = some node.range := by
  obtain ⟨parsed, -, -, numbered⟩ := Source.exists_formula_of_ofText read
  exact Formula.number_resolves numbered reaches.mem_subtree

namespace Typeset

variable {formula : Typeset α}

theorem exists_fragment_of_text (made : typeset text = .ok formula) {element : Content}
    {written : String} (member : element ∈ formula.content.elements)
    (writes : written ∈ element.texts) (nonempty : written ≠ "") :
    ∃ fragment ∈ formula.frame.fragments formula.source.resolver .origin,
      formula.source.resolver element.span = some fragment.range := by
  obtain ⟨read, evaluated, laid⟩ := exists_stages_of_typeset made
  have spanned := Source.spanned_evaluate read evaluated
  obtain ⟨range, resolved, -⟩ := (spanned element member).1
  have makes := Frame.made_fragments (Source.sourced_layout spanned laid) .origin
  obtain ⟨faces, draws, covered⟩ := Layout.draws_block (Source.block_of_layout laid)
  obtain ⟨thing, isDrawn, own⟩ :=
    Content.exists_drawn_of_text (covered spanned.plain) member writes nonempty
  rw [← draws.drawn] at isDrawn
  obtain ⟨figure, isFigure, inFigure⟩ := List.mem_flatMap.mp isDrawn
  obtain ⟨fragment, isFragment, shows⟩ :=
    Figure.exists_fragment_of_makes makes figure isFigure
  refine ⟨fragment, isFragment, ?_⟩
  rw [← shows, resolved]
  exact (Figure.range_of_drawn (draws.proper figure isFigure) inFigure (own ▸ resolved)).symm

theorem exists_record_of_fragment (made : typeset text = .ok formula) {node : Node}
    {fragment : Fragment α} (reaches : formula.source.formula.node.Reaches node)
    (member : fragment ∈ formula.frame.fragments formula.source.resolver .origin)
    (same : fragment.range = node.range) :
    ∃ record ∈ formula.subexpressions, record.range = node.range := by
  obtain ⟨read, -, -⟩ := exists_stages_of_typeset made
  obtain ⟨-, -, same_text, -⟩ := Source.exists_formula_of_ofText read
  have resolved := Source.resolver_of_reached read reaches
  obtain ⟨range, own, inText⟩ := Source.resolves_of_ofText read _ reaches.mem_subtree
  rw [Option.some.inj (own.symm.trans resolved), ← same_text] at inText
  obtain ⟨entry, isEntry, entry_range⟩ := Node.exists_entry_of_reached reaches resolved inText
  obtain ⟨record, recorded⟩ : ∃ record, Subexpression.recordOf? _ entry = some record := by
    refine Subexpression.exists_recordOf? member ?_
    rw [entry_range, same]
    exact ByteRange.contains_self node.range
  refine ⟨record, List.mem_filterMap.mpr ⟨entry, isEntry, recorded⟩, ?_⟩
  rw [(Subexpression.fragments_recordOf? recorded).1, entry_range]

end Typeset

/-- Whether a node is an identifier of the given name and range. -/
def Node.isIdentifier (name : String) (range : ByteRange) : Node → Bool
  | mathIdent written place => written = name && place.range = range
  | _ => false

theorem Node.eq_of_isIdentifier {name : String} {range : ByteRange} {node : Node}
    (found : node.isIdentifier name range = true) :
    ∃ place, node = .mathIdent name place ∧ place.range = range := by
  cases node with
  | mathIdent written place =>
      simp only [isIdentifier, Bool.and_eq_true, decide_eq_true_eq] at found
      obtain ⟨rfl, same⟩ := found
      exact ⟨place, rfl, same⟩
  | _ => cases found

/-- Whether a node is an array with an item that displays such an identifier. -/
def Node.isRowWith (name : String) (range : ByteRange) : Node → Bool
  | array items _ => items.any fun cell =>
      cell.isPositional && cell.displayed.any (isIdentifier name range)
  | _ => false

def Evaluation.givesArray (evaluation : Evaluation Value) : Bool :=
  match evaluation.result with
  | .ok (.array _) => true
  | _ => false

def Evaluation.givesMatrix (evaluation : Evaluation Value) : Bool :=
  match evaluation.result with
  | .ok (.func .mat) => true
  | _ => false

/-- Whether a node is a call of the function for matrices with such an array. -/
def Node.isMatrixWith (scope : Scope) (name : String) (range : ByteRange) : Node → Bool
  | call callee args _ _ =>
      (Evaluate.node scope false callee).givesMatrix &&
        (args.filter isPositional).any fun row =>
          (Evaluate.node scope false row).givesArray && row.isRowWith name range
  | _ => false

theorem Node.displays_of_isMatrixWith {scope : Scope} {name : String} {range : ByteRange}
    {node : Node} (found : node.isMatrixWith scope name range = true) :
    ∃ place, node.Displays scope (.mathIdent name place) (.mathIdent name place) ∧
      place.range = range := by
  cases node with
  | call callee args argsPlace place =>
      simp only [isMatrixWith, Bool.and_eq_true, List.any_eq_true] at found
      obtain ⟨matrix, row, isRow, carried, found⟩ := found
      unfold Evaluation.givesMatrix at matrix
      unfold Evaluation.givesArray at carried
      split at matrix
      case h_2 => cases matrix
      rename_i called
      split at carried
      case h_2 => cases carried
      rename_i cells evaluated
      cases row with
      | array items rowPlace =>
          simp only [isRowWith, List.any_eq_true, Bool.and_eq_true] at found
          obtain ⟨cell, member, single, inner, direct, found⟩ := found
          obtain ⟨place, rfl, same⟩ := eq_of_isIdentifier found
          have carries : (Node.array items rowPlace).Carries scope cell := .item member single
          exact ⟨place, .inCell called isRow evaluated carries (.here direct), same⟩
      | _ => cases found
  | _ => cases found

theorem globalScope_lookup? {name : String} {value : Value}
    (bound : Library.entries.get? name = some value) :
    globalScope.lookup? name = some value := by
  rw [globalScope, Scope.lookup?, Scope.lookup?, bound]
  rfl

theorem Formula.ends_of_evaluate {formula : Formula} {scope : Scope} {content : Content}
    (made : formula.evaluate scope = .ok content) (strip : Bool) :
    (Evaluate.node scope strip formula.node).Ends (.content content) := by
  obtain ⟨children, silent, given, rfl⟩ := exists_contents_of_evaluate made
  rw [Formula.node, Evaluate.node]
  exact Outcome.Ends.bind ⟨silent, given⟩ Outcome.ends_pure

theorem Source.ends_of_evaluate {source : Source} {scope : Scope} {content : Content}
    (made : source.evaluate scope = .ok content) (strip : Bool) :
    (Evaluate.node scope strip source.formula.node).Ends (.content content) :=
  Formula.ends_of_evaluate (formula_evaluate made) strip

/-- An identifier of a symbol or an operator that is displayed has a record of its own, unless it
is a cell of a matrix: then there is one of the row, at whose span the cell is displayed. -/
theorem identifier_recorded {formula : Typeset α} (made : typeset text = .ok formula)
    {name : String} {place : Place} {value : Value} {host : Node}
    (bound : Library.entries.get? name = some value) (symbolic : value.IsSymbolic)
    (displays : formula.source.formula.node.Displays globalScope (.mathIdent name place) host) :
    (host = .mathIdent name place ∨ host.Carries globalScope (.mathIdent name place)) ∧
      (∃ shown, value.display host.span = .ok shown ∧ shown.span = host.span ∧
        shown ∈ formula.content.elements) ∧
      ∃ record ∈ formula.subexpressions, record.range = host.range := by
  obtain ⟨read, evaluated, -⟩ := exists_stages_of_typeset made
  have placed : ∀ expr, formula.source.formula.node.Reaches expr → expr.span ≠ .detached := by
    intro expr reaches detached
    obtain ⟨range, resolved, -⟩ := Source.resolves_of_ofText read _ reaches.mem_subtree
    have none_resolved : formula.source.resolver expr.span = none := by rw [detached]; rfl
    cases none_resolved.symm.trans resolved
  obtain ⟨strip, found, ends, presents⟩ :=
    displays.presented placed (Source.ends_of_evaluate evaluated false)
  have same : found = value := by
    rw [Evaluate.node, Evaluate.lookup, globalScope_lookup? bound] at ends
    exact ends.eq_of_pure
  rw [same] at presents
  have writes : value.WritesAnywhere :=
    Entries.of_lookup (P := fun value => value.IsSymbolic → value.WritesAnywhere)
      Library.writesAnywhere_entries bound symbolic
  obtain ⟨shown, displayed, presented⟩ := presents writes.stays
  obtain ⟨made_shown, made_displayed, own, written, isText, nonempty⟩ := writes.shown host.span
  cases displayed.symm.trans made_displayed
  have inside : shown ∈ formula.content.elements := by
    have inside := presented.2 formula.content.span _ rfl
    rwa [Content.spanned_self] at inside
  obtain ⟨fragment, member, resolved⟩ :=
    Typeset.exists_fragment_of_text made inside isText nonempty
  refine ⟨displays.host_cases, ⟨shown, displayed, own, inside⟩, ?_⟩
  refine Typeset.exists_record_of_fragment made displays.reaches_host member ?_
  rw [own] at resolved
  have reached := Source.resolver_of_reached read displays.reaches_host
  exact Option.some.inj (resolved.symm.trans reached)

theorem identifier_recorded_of_row :
    ∃ formula : Typeset Rat, typeset "mat(1, x^pi; y)" = .ok formula ∧
      ∃ record ∈ formula.subexpressions, record.range = .between 9 11 := by
  have evaluated :
      ((typeset "mat(1, x^pi; y)" : Except Failure (Typeset Rat)).toOption.any fun formula =>
        formula.source.formula.node.displayed.any
          (Node.isMatrixWith globalScope "pi" (.between 9 11))) = true := by
    decide +kernel
  cases made : (typeset "mat(1, x^pi; y)" : Except Failure (Typeset Rat)) with
  | error failure =>
      rw [made] at evaluated
      cases evaluated
  | ok formula =>
      rw [made] at evaluated
      simp only [Except.toOption, Option.any_some, List.any_eq_true] at evaluated
      obtain ⟨outer, direct, found⟩ := evaluated
      obtain ⟨place, displays, same⟩ := Node.displays_of_isMatrixWith found
      have bound : Library.entries.get? "pi" = some (.symbol "π" false) := rfl
      obtain ⟨-, -, record, member, range⟩ :=
        identifier_recorded made bound trivial (.within direct displays)
      exact ⟨formula, rfl, record, member, range.trans same⟩

/-- The cells of a matrix are displayed at the spans of their rows, and so have no records. -/
theorem identifier_not_recorded_of_cell :
    ∃ formula : Typeset Float, typeset "mat(alpha, beta; gamma, delta)" = .ok formula ∧
      Library.entries.get? "alpha" = some (.symbol "α" false) ∧
      ∃ place, formula.source.formula.node.Reaches (.mathIdent "alpha" place) ∧
        ∀ record ∈ formula.subexpressions, record.range ≠ place.range := by
  have evaluated :
      ((typeset "mat(alpha, beta; gamma, delta)" : Except Failure (Typeset Float)).toOption.any
        fun formula =>
          (formula.source.formula.node.subexpressions.any fun matrix =>
            matrix.subexpressions.any fun row =>
              row.subexpressions.any fun cell => cell.isIdentifier "alpha" (.between 4 9)) &&
          formula.subexpressions.all fun record => record.range ≠ .between 4 9) = true := by
    decide +kernel
  cases made :
      (typeset "mat(alpha, beta; gamma, delta)" : Except Failure (Typeset Float)) with
  | error failure =>
      rw [made] at evaluated
      cases evaluated
  | ok formula =>
      rw [made] at evaluated
      simp only [Except.toOption, Option.any_some, Bool.and_eq_true, List.any_eq_true,
        List.all_eq_true, decide_eq_true_eq] at evaluated
      obtain ⟨⟨matrix, isMatrix, row, isRow, cell, isCell, found⟩, unrecorded⟩ := evaluated
      obtain ⟨place, rfl, same⟩ := Node.eq_of_isIdentifier found
      refine ⟨formula, rfl, by rfl, place, ?_, ?_⟩
      · exact .through isMatrix (.through isRow (.through isCell .here))
      · rw [same]
        exact unrecorded

end EquationMap
