import EquationMap.Proofs.Answers.Answers
import EquationMap.Proofs.Answers.Layout
import EquationMap.Proofs.Lexing.Faults
import EquationMap.Proofs.Parsing.Limits

namespace EquationMap

open Text

theorem Text.IsBoundary.le {text : List Char} {offset : Nat} (boundary : IsBoundary text offset) :
    offset ≤ byteLength text := by
  obtain ⟨head, ⟨tail, rfl⟩, rfl⟩ := boundary
  rw [byteLength_append]
  exact Nat.le_add_right _ _

variable {text : String}

theorem Formula.errors_of_ofText {errors : List SyntaxError}
    (read : Formula.ofText text = .error (.errors errors)) :
    errors ≠ [] ∧ ∀ error ∈ errors, error.range.EndsAt (IsBoundary text.toList) := by
  unfold Formula.ofText at read
  split at read
  · rename_i tokens tokenized
    have tokens_end : ∀ token ∈ tokens.toList, token.range.EndsAt (IsBoundary text.toList) :=
      fun token member =>
        have ends := (TokenList.inOrder_of_tokenize tokenized).boundaries token member
        ⟨ends.1, ends.2⟩
    have keeps : Reading.Keeps (IsBoundary text.toList)
        (Grammar.sequence (Grammar.phrase maxNesting) []) _ :=
      Grammar.sequence_keeps (Grammar.phrase_limited maxNesting)
    have start := Cursor.endsAt_ofTokens _ tokens_end
    have of_reverse {cursor : Cursor} (ends : cursor.EndsAt (IsBoundary text.toList))
        (some_error : cursor.errors ≠ []) : cursor.errors.reverse ≠ [] ∧
          ∀ error ∈ cursor.errors.reverse, error.range.EndsAt (IsBoundary text.toList) :=
      ⟨List.reverse_ne_nil_iff.mpr some_error,
        fun error member => ends.errors error (List.mem_reverse.mp member)⟩
    unfold Formula.ofTokens at read
    split at read
    · rename_i exprs cursor completed
      split at read
      · cases read
      · rename_i faulty
        cases read
        refine of_reverse (keeps.completed start completed).1 fun clean => ?_
        exact faulty (List.isEmpty_iff.mpr clean)
    · cases read
    · rename_i reason cursor other stopped
      cases read
      obtain ⟨ends, unfounded⟩ := keeps.interrupted start stopped
      refine of_reverse ends fun clean => ?_
      obtain ⟨fault, rfl⟩ := unfounded clean
      exact other fault rfl
  · rename_i found tokenized
    cases read
    exact tokenize_errors tokenized

def Resolver.Places (resolver : Resolver) (text : String) (span : Span) : Prop :=
  ∃ range, resolver span = some range ∧ range.EndsAt (IsBoundary text.toList)

/-- Whether a diagnostic has a range in a text that ends between its characters. -/
def Diagnostic.PlacedIn (text : String) (diagnostic : Diagnostic) : Prop :=
  ∃ range, diagnostic.range? = some range ∧ range.start ≤ range.stop ∧
    range.stop ≤ byteLength text.toList ∧ IsBoundary text.toList range.start ∧
    IsBoundary text.toList range.stop

theorem Diagnostic.placedIn_error {code message : String} {range : ByteRange}
    (ends : range.EndsAt (IsBoundary text.toList)) :
    (Diagnostic.error code message (some range)).PlacedIn text :=
  ⟨range, rfl, range.ordered, ends.stop.le, ends.start, ends.stop⟩

theorem Diagnostic.placedIn_resolved {code message : String} {resolver : Resolver} {span : Span}
    (places : resolver.Places text span) :
    (Diagnostic.error code message (resolver span)).PlacedIn text := by
  obtain ⟨range, resolved, ends⟩ := places
  rw [resolved]
  exact placedIn_error ends

theorem Source.places_of_ofText {source : Source} (read : Source.ofText text = .ok source) :
    ∀ part ∈ source.formula.node.subtree, source.resolver.Places text part.place.span := by
  obtain ⟨formula, parsed, -, made⟩ := exists_formula_of_ofText read
  obtain ⟨tidy, -, -⟩ := Formula.tidy_of_ofText parsed
  intro part member
  obtain ⟨original, found, same⟩ := Formula.exists_part_of_numbered made member
  have here := tidy original found
  refine ⟨part.range, Formula.number_resolves made member, ?_⟩
  rw [← same]
  exact ⟨here.start, here.stop⟩

/-! The stages together. A text with more parts than there are numbers is refused without a
diagnostic. -/

/-- Whether a refusal says where it is wrong. -/
def Failure.Placed (text : String) : Failure → Prop
  | .refused refusal => refusal.stage = .numberize ∨
      refusal.diagnostics ≠ [] ∧ ∀ diagnostic ∈ refusal.diagnostics, diagnostic.PlacedIn text
  | .broken _ => True

theorem Failure.placed_refuse {ε : Type} {stage : Stage} {errors : List ε}
    {diagnostic : ε → Diagnostic} (some_error : errors ≠ [])
    (placed : ∀ error ∈ errors, (diagnostic error).PlacedIn text) :
    (Failure.refuse stage (errors.map diagnostic)).Placed text :=
  .inr ⟨fun none => some_error (List.map_eq_nil_iff.mp none), List.forall_mem_map.mpr placed⟩

section

variable {failure : Failure} {source : Source}

theorem Source.placed_of_ofText (read : Source.ofText text = .error failure) :
    failure.Placed text := by
  unfold ofText at read
  split at read
  · rename_i other parsed
    cases read
    cases other with
    | errors errors =>
        obtain ⟨some_error, ends⟩ := Formula.errors_of_ofText parsed
        exact Failure.placed_refuse some_error fun error member =>
          Diagnostic.placedIn_error (ends error member)
    | number fault => trivial
  · split at read <;> cases read
    exact .inl rfl

theorem Source.placed_of_evaluate (read : Source.ofText text = .ok source)
    (evaluated : source.evaluate globalScope = .error failure) : failure.Placed text := by
  unfold evaluate at evaluated
  split at evaluated
  · cases evaluated
  · rename_i other ended
    cases evaluated
    cases other with
    | errors errors =>
        obtain ⟨some_error, known⟩ := Formula.errors_of_evaluate (places_of_ofText read) ended
        exact Failure.placed_refuse some_error fun error member =>
          Diagnostic.placedIn_resolved (known error member)
    | number fault => trivial

theorem Source.placed_of_layout {α : Type} [Length α] {content : Content} {region : Region α}
    (read : Source.ofText text = .ok source) (evaluated : source.evaluate globalScope = .ok content)
    (laid : source.layout content Styles.standard region = .error failure) :
    failure.Placed text := by
  have spanned := spanned_of_known (places_of_ofText read) evaluated
  unfold layout at laid
  split at laid
  · cases laid
  · rename_i other failed
    cases laid
    cases other with
    | errors errors =>
        obtain ⟨some_error, known⟩ :=
          Layout.errors_of_spanned_block FontFace.select_standard spanned failed
        exact Failure.placed_refuse some_error fun error member =>
          Diagnostic.placedIn_resolved (known error member)
    | stopped stop => trivial

theorem placed_of_render (rendered : render text = .error failure) : failure.Placed text := by
  rcases failed_stage_of_render rendered with
    unread | ⟨source, read, unevaluated | ⟨content, evaluated, unlaid⟩⟩
  · exact Source.placed_of_ofText unread
  · exact Source.placed_of_evaluate read unevaluated
  · exact Source.placed_of_layout read evaluated unlaid

end

/-- A text that is refused in reading, evaluation or layout is told so by at least one
diagnostic, and every diagnostic has a range in the text that ends between its characters. -/
theorem refusals_placed (text : String) (refusal : Refusal)
    (refused : render text = .error (.refused refusal))
    (stage : refusal.stage ∈ [Stage.parse, .eval, .layout]) :
    refusal.diagnostics ≠ [] ∧
      ∀ diagnostic ∈ refusal.diagnostics, diagnostic.PlacedIn text := by
  rcases placed_of_render refused with unnumbered | placed
  · rw [unnumbered] at stage
    simp at stage
  · exact placed

/-- Texts that are refused in reading, in evaluation for two reasons, and in layout. -/
theorem refusals_placed_of_stages :
    (∃ refusal, render "é + (a" = .error (.refused refusal) ∧ refusal.stage = .parse ∧
      refusal.diagnostics ≠ [] ∧
        ∀ diagnostic ∈ refusal.diagnostics, diagnostic.PlacedIn "é + (a") ∧
    (∃ refusal, render "é + frac(a)#b" = .error (.refused refusal) ∧ refusal.stage = .eval ∧
      refusal.diagnostics ≠ [] ∧
        ∀ diagnostic ∈ refusal.diagnostics, diagnostic.PlacedIn "é + frac(a)#b") ∧
    (∃ refusal, render "é + 字" = .error (.refused refusal) ∧ refusal.stage = .layout ∧
      refusal.diagnostics ≠ [] ∧
        ∀ diagnostic ∈ refusal.diagnostics, diagnostic.PlacedIn "é + 字") := by
  have located {text : String} {stage : Stage} (among : stage ∈ [Stage.parse, .eval, .layout])
      (evaluated : (match render text with
        | .error (.refused refusal) => decide (refusal.stage = stage)
        | _ => false) = true) :
      ∃ refusal, render text = .error (.refused refusal) ∧ refusal.stage = stage ∧
        refusal.diagnostics ≠ [] ∧
          ∀ diagnostic ∈ refusal.diagnostics, diagnostic.PlacedIn text := by
    split at evaluated
    · rename_i refusal refused
      have same : refusal.stage = stage := of_decide_eq_true evaluated
      exact ⟨refusal, refused, same, refusals_placed text refusal refused (same ▸ among)⟩
    · cases evaluated
  exact ⟨located (by decide) (by decide +kernel), located (by decide) (by decide +kernel),
    located (by decide) (by decide +kernel)⟩

end EquationMap
