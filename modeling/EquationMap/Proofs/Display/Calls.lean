import EquationMap.Evaluation.Evaluate
import EquationMap.Proofs.Display.Shown
import EquationMap.Proofs.Parsing.Calls
import EquationMap.Proofs.Tree.Unspanned
import EquationMap.Rendering
import Mathlib.Data.List.Forall2

namespace EquationMap

open Outcome

def Node.argumentExpr : Node → Node
  | named _ expr _ | spread expr _ => expr
  | expr => expr

def Node.label? : Node → Option Content
  | named name _ place => some (.text (name ++ ":") true false place.span)
  | _ => none

/-- An argument in a call that is shown. -/
structure ShownArgument where
  label : Option Content
  content : Content

namespace ShownArgument

def contents (shown : ShownArgument) : List Content :=
  shown.label.toList ++ [shown.content]

def afterCommas (comma : Content) (shown : List ShownArgument) : List Content :=
  shown.flatMap fun argument => comma :: argument.contents

/-- Arguments with a comma before each but the first. -/
def separated (comma : Content) (shown : List ShownArgument) : List Content :=
  (afterCommas comma shown).tail

end ShownArgument

variable {scope : Scope}

/-- Whether an argument is shown with its name and the content of its expression. -/
structure Node.ShownBy (scope : Scope) (argument : Node) (shown : ShownArgument) : Prop where
  label : shown.label = argument.label?
  content : ∃ value, (Evaluate.node scope false argument.argumentExpr).result = .ok value ∧
    value.display argument.argumentExpr.span = .ok shown.content

theorem Node.ShownBy.of_array {items : List Node} {place : Place} {shown : ShownArgument}
    (shownBy : (Node.array items place).ShownBy scope shown) :
    ∃ values code, (Evaluate.items scope items).result = .ok values ∧
      (Value.array values).toCode = .ok code ∧
      shown = ⟨none, .text code true false place.span⟩ := by
  obtain ⟨label, value, evaluated, content⟩ := shownBy
  change (Evaluate.node scope false (.array items place)).result = _ at evaluated
  rw [Evaluate.node] at evaluated
  cases given : (Evaluate.items scope items).result with
  | error halt =>
      rw [result_bind_of_error given] at evaluated
      cases evaluated
  | ok values =>
      rw [result_bind_of_ok given] at evaluated
      cases evaluated
      obtain ⟨code, written, made⟩ := exists_ok_of_bind content
      obtain ⟨shown_label, shown_content⟩ := shown
      cases label
      cases made
      exact ⟨values, code, rfl, written, rfl⟩

namespace Evaluate

theorem shown_cons (argsSpan : Span) (isFirst : Bool) (argument : Node) (rest : List Node) :
    shown scope argsSpan isFirst (argument :: rest) = (do
      let content ← displayed (node scope false argument.argumentExpr) argument.argumentExpr.span
      let others ← shown scope argsSpan false rest
      return comma isFirst argsSpan ++ (argument.label?.toList ++ content :: others)) := by
  cases argument <;> rfl

/-- What an expression is shown as, unless it stops or an integer in its value is too long. -/
theorem result_displayed (evaluation : Evaluation Value) (span : Span) :
    (∃ halt, evaluation.result = .error halt ∧
        (displayed evaluation span).result = .error halt) ∨
      ∃ value, evaluation.result = .ok value ∧
        (¬value.IsWritable ∧
            (displayed evaluation span).result = .error (.number .integerTooLong) ∨
          ∃ content, value.display span = .ok content ∧
            (displayed evaluation span).result = .ok content) := by
  unfold displayed
  cases evaluated : evaluation.result with
  | error halt => exact .inl ⟨halt, rfl, result_bind_of_error evaluated⟩
  | ok value =>
      refine .inr ⟨value, rfl, ?_⟩
      rw [result_bind_of_ok evaluated]
      cases shows : value.display span with
      | error fault =>
          obtain ⟨rfl, unwritable⟩ := Value.error_of_display shows
          exact .inl ⟨unwritable, rfl⟩
      | ok content => exact .inr ⟨content, rfl, rfl⟩

/-- Whether an evaluation that shows arguments stops where the first of them cannot be shown: with
what stops its expression, or at an integer that is too long. -/
def StopsAtArgument {α : Type} (scope : Scope) (args : List Node) (evaluated : Except Halt α) :
    Prop :=
  ∃ argument ∈ args,
    (∃ halt, (node scope false argument.argumentExpr).result = .error halt ∧
      evaluated = .error halt) ∨
    ∃ value, (node scope false argument.argumentExpr).result = .ok value ∧
      ¬value.IsWritable ∧ evaluated = .error (.number .integerTooLong)

theorem StopsAtArgument.map {α β : Type} {args more : List Node} {evaluated : Except Halt α}
    {other : Except Halt β} (stops : StopsAtArgument scope args evaluated) (among : args ⊆ more)
    (carries : ∀ halt, evaluated = .error halt → other = .error halt) :
    StopsAtArgument scope more other := by
  obtain ⟨argument, member, stopped⟩ := stops
  refine ⟨argument, among member, stopped.imp ?_ ?_⟩
  · rintro ⟨halt, given, stopped⟩
    exact ⟨halt, given, carries halt stopped⟩
  · rintro ⟨value, given, unwritable, stopped⟩
    exact ⟨value, given, unwritable, carries _ stopped⟩

/-- A shown call shows every argument in turn, or stops at the first that cannot be shown. -/
theorem result_shown (argsSpan : Span) (isFirst : Bool) (args : List Node) :
    StopsAtArgument scope args (shown scope argsSpan isFirst args).result ∨
      ∃ arguments, List.Forall₂ (Node.ShownBy scope) args arguments ∧
        (shown scope argsSpan isFirst args).result =
          .ok (if isFirst then ShownArgument.separated (.plain "," argsSpan) arguments
            else ShownArgument.afterCommas (.plain "," argsSpan) arguments) := by
  induction args generalizing isFirst with
  | nil =>
      refine .inr ⟨[], .nil, ?_⟩
      rw [shown]
      cases isFirst <;> rfl
  | cons argument rest ih =>
      rw [shown_cons]
      rcases result_displayed (node scope false argument.argumentExpr)
          argument.argumentExpr.span with
        ⟨halt, evaluated, stopped⟩ | ⟨value, evaluated, ⟨unwritable, stopped⟩ |
          ⟨content, shows, given⟩⟩
      · exact .inl ⟨argument, List.mem_cons_self, .inl ⟨halt, evaluated,
          result_bind_of_error stopped⟩⟩
      · exact .inl ⟨argument, List.mem_cons_self, .inr ⟨value, evaluated, unwritable,
          result_bind_of_error stopped⟩⟩
      · rw [result_bind_of_ok given]
        rcases ih false with stops | ⟨arguments, shownBy, later⟩
        · exact .inl (stops.map (List.subset_cons_self _ _) fun _ => result_bind_of_error)
        · let first : ShownArgument := ⟨argument.label?, content⟩
          refine .inr ⟨first :: arguments, .cons ⟨rfl, value, evaluated, shows⟩ shownBy, ?_⟩
          rw [result_bind_of_ok later]
          refine congrArg Except.ok ?_
          cases isFirst <;>
            simp [first, comma, ShownArgument.separated, ShownArgument.afterCommas,
              ShownArgument.contents]

theorem node_shownCall {name : String} {namePlace argsPlace place : Place} {args : List Node}
    {value : Value} (bound : scope.lookup? name = some value)
    (noFunction : ∀ function, value ≠ .func function) (strip : Bool) :
    (node scope strip (.call (.mathIdent name namePlace) args argsPlace place)).result = (do
      let contents ← shown scope argsPlace.span true args
      let callee ← Evaluation.lift (value.display namePlace.span)
      return Value.content (shownCall callee contents argsPlace.span place.span)).result := by
  have callee : (node scope false (.mathIdent name namePlace)).result = .ok value := by
    rw [node, lookup, bound]
    rfl
  rw [node, result_bind_of_ok callee]
  split
  · exact absurd rfl (noFunction _)
  · have isName : isMathIdent (.mathIdent name namePlace) = true := rfl
    rw [if_pos isName]
    rfl

end Evaluate

theorem TreePart.eq_call_of_unspanned {part : TreePart} {name : String}
    {namePlace argsPlace place : Place} {args : List Node}
    (same : part.unspanned =
      unspanned (.node (.call (.mathIdent name namePlace) args argsPlace place))) :
    ∃ namePlace' args' argsPlace' place',
      part = .node (.call (.mathIdent name namePlace') args' argsPlace' place') ∧
        namePlace'.range = namePlace.range ∧
        args'.map Node.unspanned = args.map Node.unspanned := by
  cases part with
  | arguments => cases same
  | node tree =>
      cases tree with
      | call callee args' argsPlace' place' =>
          cases callee with
          | mathIdent name' namePlace' =>
              simp only [unspanned, Node.unspanned, Node.unspannedList_eq, node.injEq,
                Node.call.injEq, Node.mathIdent.injEq] at same
              obtain ⟨⟨rfl, name_same⟩, args_same, -, -⟩ := same
              have name_range : namePlace'.unspanned.range = namePlace.unspanned.range := by
                rw [name_same]
              exact ⟨_, _, _, _, rfl, name_range, args_same⟩
          | _ => simp [unspanned, Node.unspanned] at same
      | _ => simp [unspanned, Node.unspanned] at same

theorem Node.isNamed_unspanned (node : Node) : node.unspanned.isNamed = node.isNamed := by
  cases node <;> rfl

theorem Node.exists_array_of_unspanned {node other : Node} {items : List Node} {place : Place}
    (same : node.unspanned = other.unspanned) (isArray : other = .array items place) :
    ∃ items place, node = .array items place := by
  subst isArray
  cases node with
  | array items place => exact ⟨items, place, rfl⟩
  | _ => simp [unspanned] at same

/-- A call of a name that is bound to no function is shown with the arguments in the order of
the tree, every one with the content of its expression, unless one of them cannot be shown. That is
the order of the text just if the named arguments come last and there are no rows; rows are shown as
arrays in code. -/
theorem arguments_shown_regrouped {text : String} {formula numbered : Formula} {file : String}
    {numbers : SpanNumbers} {table : SpanTable} (read : Formula.ofText text = .ok formula)
    (made : formula.number file numbers = .ok (numbered, table)) {name : String}
    {namePlace argsPlace place : Place} {args : List Node}
    (member : .node (.call (.mathIdent name namePlace) args argsPlace place) ∈
      numbered.node.subtree)
    {value : Value} (bound : scope.lookup? name = some value)
    (noFunction : ∀ function, value ≠ .func function) (strip : Bool) :
    let evaluated :=
      (Evaluate.node scope strip (.call (.mathIdent name namePlace) args argsPlace place)).result
    ∃ tokens token rows, tokenize text = .ok tokens ∧ CallWritten tokens.toList token rows ∧
      token.value = name ∧ token.range = namePlace.range ∧
      args.map Node.unspanned = (regrouped rows).map Node.unspanned ∧
      (regrouped rows = rows.flatten ↔ NamedLast rows) ∧
      (Evaluate.StopsAtArgument scope args evaluated ∨
        ∃ arguments,
          List.Forall₂ (fun argument shown => argument.ShownBy scope shown ∧
            (rows.length ≠ 1 → argument.isNamed = false → ∃ values code,
              (Value.array values).toCode = .ok code ∧
              shown = ⟨none, .text code true false argument.span⟩))
            args arguments ∧
          (¬value.IsWritable ∧ evaluated = .error (.number .integerTooLong) ∨
            ∃ callee, value.display namePlace.span = .ok callee ∧
              evaluated = .ok (.content (Evaluate.shownCall callee
                (ShownArgument.separated (.plain "," argsPlace.span) arguments) argsPlace.span
                place.span)))) := by
  intro evaluated
  obtain ⟨original, found, same⟩ := Formula.exists_unspanned_of_numbered made member
  obtain ⟨namePlace', args', argsPlace', place', rfl, name_range, args_same⟩ :=
    TreePart.eq_call_of_unspanned same
  obtain ⟨tokens, tokenized, written⟩ := Formula.callsWritten_of_ofText read
  obtain ⟨token, rows, call_written, named, range, rfl⟩ := written _ found
  refine ⟨tokens, token, rows, tokenized, call_written, named, range.trans name_range,
    args_same.symm, regrouped_eq_flatten_iff rows, ?_⟩
  -- what is an array before the tree is numbered is one afterwards
  have isArray : ∀ argument ∈ args, rows.length ≠ 1 → argument.isNamed = false →
      ∃ items place, argument = .array items place := by
    intro argument among several unnamed
    have isOriginal := List.mem_map_of_mem (f := Node.unspanned) among
    rw [← args_same] at isOriginal
    obtain ⟨other, isOther, other_same⟩ := List.mem_map.mp isOriginal
    rw [← Node.isNamed_unspanned, ← other_same, Node.isNamed_unspanned] at unnamed
    obtain ⟨items, place, array⟩ := exists_array_of_regrouped several isOther unnamed
    exact Node.exists_array_of_unspanned other_same.symm array
  have as_shown : evaluated = _ := Evaluate.node_shownCall bound noFunction strip
  rcases Evaluate.result_shown argsPlace.span true args with stops | ⟨arguments, shownBy, given⟩
  · refine .inl (stops.map (List.Subset.refl _) fun halt stopped => ?_)
    rw [as_shown, result_bind_of_error stopped]
  · refine .inr ⟨arguments, ?_, ?_⟩
    · refine ((List.forall₂_and_left _ _).mpr ⟨isArray, shownBy⟩).imp ?_
      rintro argument shown ⟨isArray, shownBy⟩
      refine ⟨shownBy, fun several unnamed => ?_⟩
      obtain ⟨items, place, rfl⟩ := isArray several unnamed
      obtain ⟨values, code, -, written, shown_eq⟩ := shownBy.of_array
      exact ⟨values, code, written, shown_eq⟩
    · rw [as_shown, result_bind_of_ok given]
      cases shows : value.display namePlace.span with
      | error fault =>
          obtain ⟨rfl, unwritable⟩ := Value.error_of_display shows
          exact .inl ⟨unwritable, rfl⟩
      | ok callee => exact .inr ⟨callee, rfl, rfl⟩

def TreePart.isCallOf (name : String) : TreePart → Bool
  | .node (.call (.mathIdent found _) _ _ _) => found = name
  | _ => false

theorem TreePart.eq_of_isCallOf {name : String} {part : TreePart}
    (found : part.isCallOf name = true) :
    ∃ namePlace args argsPlace place,
      part = .node (.call (.mathIdent name namePlace) args argsPlace place) := by
  unfold isCallOf at found
  split at found
  · cases of_decide_eq_true found
    exact ⟨_, _, _, _, rfl⟩
  · cases found

theorem arguments_shown_regrouped_of_rows :
    ∃ formula numbered table, Formula.ofText "pi(n: a, b; c)" = .ok formula ∧
      formula.number Source.mainFile .full = .ok (numbered, table) ∧
      ∃ namePlace args argsPlace place, .node (.call (.mathIdent "pi" namePlace) args argsPlace
        place) ∈ numbered.node.subtree ∧
      ∃ tokens token rows, tokenize "pi(n: a, b; c)" = .ok tokens ∧
        CallWritten tokens.toList token rows ∧
        args.map Node.unspanned = (regrouped rows).map Node.unspanned := by
  have evaluated : ((Formula.ofText "pi(n: a, b; c)").toOption.any fun formula =>
      (formula.number Source.mainFile .full).toOption.any fun made =>
        made.1.node.subtree.any (TreePart.isCallOf "pi")) = true := by
    decide +kernel
  obtain ⟨formula, read, evaluated⟩ := exists_ok_of_any evaluated
  obtain ⟨⟨numbered, table⟩, made, evaluated⟩ := exists_ok_of_any evaluated
  obtain ⟨part, member, found⟩ := List.any_eq_true.mp evaluated
  obtain ⟨namePlace, args, argsPlace, place, rfl⟩ := TreePart.eq_of_isCallOf found
  have bound : globalScope.lookup? "pi" = some (.symbol "π" false) := rfl
  obtain ⟨tokens, token, rows, tokenized, written, -, -, args_same, -⟩ :=
    arguments_shown_regrouped read made member bound nofun false
  exact ⟨formula, numbered, table, read, made, namePlace, args, argsPlace, place, member, tokens,
    token, rows, tokenized, written, args_same⟩

def TreePart.isTextOf (written : String) : TreePart → Bool
  | .node (.text found _) => found = written
  | _ => false

theorem TreePart.eq_of_isTextOf {written : String} {part : TreePart}
    (found : part.isTextOf written = true) : ∃ place, part = .node (.text written place) := by
  unfold isTextOf at found
  split at found
  · cases of_decide_eq_true found
    exact ⟨_, rfl⟩
  · cases found

def Content.isTextOf (written : String) : Content → Bool
  | text found _ _ _ => found = written
  | _ => false

/-- Letters that are written as arguments with a semicolon between them are in the tree but not
in the content. -/
theorem arguments_not_shown_of_rows :
    globalScope.lookup? "pi" = some (.symbol "π" false) ∧
      ∃ source content, Source.ofText "pi(a; b)" = .ok source ∧
      source.evaluate globalScope = .ok content ∧
      ∀ letter ∈ ["a", "b"], (∃ place, .node (.text letter place) ∈ source.formula.node.subtree) ∧
        ∀ span, .plain letter span ∉ content.elements := by
  have evaluated : ((Source.ofText "pi(a; b)").toOption.any fun source =>
      (source.evaluate globalScope).toOption.any fun content =>
        ["a", "b"].all fun letter =>
          source.formula.node.subtree.any (TreePart.isTextOf letter) &&
            content.elements.all fun element => !element.isTextOf letter) = true := by
    decide +kernel
  obtain ⟨source, read, evaluated⟩ := exists_ok_of_any evaluated
  obtain ⟨content, given, evaluated⟩ := exists_ok_of_any evaluated
  refine ⟨rfl, source, content, read, given, fun letter among => ?_⟩
  have here := List.all_eq_true.mp evaluated letter among
  rw [Bool.and_eq_true] at here
  obtain ⟨part, member, isLetter⟩ := List.any_eq_true.mp here.1
  obtain ⟨place, rfl⟩ := TreePart.eq_of_isTextOf isLetter
  refine ⟨⟨place, member⟩, fun span inside => ?_⟩
  have absent := List.all_eq_true.mp here.2 _ inside
  simp [Content.plain, Content.isTextOf] at absent

end EquationMap
