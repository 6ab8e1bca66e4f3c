import EquationMap.Evaluation.Function
import EquationMap.Proofs.Display.Writing
import Mathlib.Data.List.Perm.Basic

namespace EquationMap

/-! What the functions of the library take of their arguments. Whatever a function is given, it
gives a value only if it has made use of every argument, and otherwise it finds fault with the
first one that is missing, left over or unknown, or stops before at one that cannot be shown. -/

namespace Arguments

variable {α : Type}

/-- The value given under a name, or a default value in its place. -/
def given (arguments : Arguments) (name : String) (default : Value) : Value :=
  ((arguments.named.get? name).map Prod.fst).getD default

def without (arguments : Arguments) (name : String) : Arguments :=
  { arguments with named := arguments.named.remove name }

theorem takeNamed_bind (name : String) (default : Value) (next : Value → Taking α)
    (arguments : Arguments) :
    (takeNamed name default >>= next) arguments =
      next (arguments.given name default) (arguments.without name) := by
  change EStateM.bind (takeNamed name default) next arguments = _
  unfold EStateM.bind takeNamed given without
  cases found : arguments.named.get? name with
  | some argument => rfl
  | none =>
      have absent : arguments.named.remove name = arguments.named := by
        refine List.filter_eq_self.mpr fun entry member => ?_
        have different := List.lookup_eq_none_iff.mp found entry member
        exact decide_eq_true (Ne.symm (bne_iff_ne.mp different))
      dsimp only [Option.map_none, Option.getD_none]
      rw [absent]

/-- The first argument under a name that is not among some names. -/
def unknown? (arguments : Arguments) (names : List String) : Option (String × Value × Span) :=
  arguments.named.find? fun entry => entry.1 ∉ names

theorem unknown?_without (arguments : Arguments) (name : String) (names : List String) :
    (arguments.without name).unknown? names = arguments.unknown? (name :: names) := by
  unfold unknown? without Entries.remove
  rw [List.find?_filter]
  congr 1
  funext entry
  simp [not_or]

theorem forall_mem_without {arguments : Arguments} {name : String} {names : List String} :
    (∀ entry ∈ (arguments.without name).named, entry.1 ∈ names) ↔
      ∀ entry ∈ arguments.named, entry.1 ∈ name :: names := by
  unfold without Entries.remove
  simp only [List.mem_filter, List.mem_cons, decide_eq_true_eq, and_imp]
  refine forall₂_congr fun entry _ => ?_
  exact ⟨fun other => (Classical.em _).imp_right other, fun known other => known.resolve_left other⟩

end Arguments

open Arguments

section

variable {α β : Type}

/-- Whether taking arguments stops at one with an integer that is too long to be shown. -/
def Taking.StopsAtLong (taking : Taking α) (arguments : Arguments) : Prop :=
  (∃ rest, taking arguments = .error (.number .integerTooLong) rest) ∧
    ∃ argument ∈ arguments.positional, ¬argument.1.IsWritable

/-- Whether taking arguments ends in an error, unless it stops before at one that cannot be
shown. -/
def Taking.Finds (taking : Taking α) (arguments : Arguments) (found : EvalError → Prop) : Prop :=
  (∃ error rest, found error ∧ taking arguments = .error (.error error) rest) ∨
    taking.StopsAtLong arguments

theorem Taking.Finds.takeNamed {name : String} {default : Value} {next : Value → Taking β}
    {arguments : Arguments} {found : EvalError → Prop}
    (finds : (next (arguments.given name default)).Finds (arguments.without name) found) :
    (Arguments.takeNamed name default >>= next).Finds arguments found := by
  unfold Finds StopsAtLong
  rw [takeNamed_bind]
  exact finds

/-- Whether a step leaves some arguments and gives something of a kind, unless it stops at one that
cannot be shown. -/
def Taking.Leaves (step : Taking α) (arguments rest : Arguments) (P : α → Prop) : Prop :=
  (∃ value, P value ∧ step arguments = .ok value rest) ∨ step.StopsAtLong arguments

namespace Taking.Leaves

variable {step : Taking α} {next : α → Taking β} {arguments rest : Arguments} {P : α → Prop}

theorem finds (leaves : step.Leaves arguments rest P)
    (among : rest.positional ⊆ arguments.positional) {found : EvalError → Prop}
    (later : ∀ value, (next value).Finds rest found) : (step >>= next).Finds arguments found := by
  rcases leaves with ⟨value, -, given⟩ | ⟨⟨left, stopped⟩, long⟩
  · have continued : (step >>= next) arguments = next value rest := by
      change EStateM.bind step next arguments = _
      rw [EStateM.bind, given]
    rcases later value with ⟨error, left, here, ends⟩ | ⟨⟨left, ends⟩, argument, member, long⟩
    · exact .inl ⟨error, left, here, continued.trans ends⟩
    · exact .inr ⟨⟨left, continued.trans ends⟩, argument, among member, long⟩
  · refine .inr ⟨⟨left, ?_⟩, long⟩
    change EStateM.bind step next arguments = _
    rw [EStateM.bind, stopped]

theorem of_ok (leaves : step.Leaves arguments rest P) {value : β} {left : Arguments}
    (taken : (step >>= next) arguments = .ok value left) :
    ∃ between, P between ∧ next between rest = .ok value left := by
  change EStateM.bind step next arguments = _ at taken
  rcases leaves with ⟨between, holds, given⟩ | ⟨⟨other, stopped⟩, -⟩
  · rw [EStateM.bind, given] at taken
    exact ⟨between, holds, taken⟩
  · rw [EStateM.bind, stopped] at taken
    cases taken

end Taking.Leaves

/-- Whether a function takes a number of positional arguments and those under some names, and then
reports what is left. -/
structure Taking.Exhausts (taking : Taking α) (count : Nat) (names : List String) : Prop where
  taken : ∀ {arguments value rest}, taking arguments = .ok value rest →
    arguments.positional.length = count ∧ ∀ entry ∈ arguments.named, entry.1 ∈ names
  missing : ∀ {arguments}, arguments.positional.length < count →
    taking.Finds arguments fun error => ∃ what, error = ⟨.missingArgument what, arguments.span⟩
  surplus : ∀ {arguments argument}, arguments.positional[count]? = some argument →
    taking.Finds arguments (· = ⟨.surplusArgument, argument.2⟩)
  unknown : ∀ {arguments entry}, arguments.positional.length = count →
    arguments.unknown? names = some entry →
    taking.Finds arguments (· = ⟨.unknownArgument entry.1, entry.2.2⟩)

namespace Taking.Exhausts

variable {count : Nat} {names : List String}

theorem finish (next : Unit → Taking β) : (Arguments.finish >>= next).Exhausts 0 [] where
  taken := by
    rintro ⟨span, positional, named⟩ value rest taken
    rcases positional with _ | ⟨argument, others⟩
    · rcases named with _ | ⟨entry, others⟩
      · exact ⟨rfl, List.forall_mem_nil _⟩
      · cases taken
    · cases taken
  missing := by
    intro arguments few
    exact absurd few (Nat.not_lt_zero _)
  surplus := by
    rintro ⟨span, positional, named⟩ argument first
    rcases positional with _ | ⟨argument, others⟩ <;> cases first
    exact .inl ⟨_, _, rfl, rfl⟩
  unknown := by
    rintro ⟨span, positional, named⟩ entry none_left first
    obtain rfl := List.eq_nil_of_length_eq_zero none_left
    rcases named with _ | ⟨entry, others⟩ <;> cases first
    exact .inl ⟨_, _, rfl, rfl⟩

theorem one {step : Taking α} {what : String} {next : α → Taking β}
    (fails : ∀ span named, step ⟨span, [], named⟩ =
      .error (.error ⟨.missingArgument what, span⟩) ⟨span, [], named⟩)
    (leaves : ∀ span argument others named,
      step.Leaves ⟨span, argument :: others, named⟩ ⟨span, others, named⟩ fun _ => True)
    (tail : ∀ value, (next value).Exhausts count names) :
    (step >>= next).Exhausts (count + 1) names := by
  have failed (span : Span) (named : Entries (Value × Span)) :
      (step >>= next) ⟨span, [], named⟩ =
        .error (.error ⟨.missingArgument what, span⟩) ⟨span, [], named⟩ := by
    change EStateM.bind step next _ = _
    rw [EStateM.bind, fails]
  constructor
  case taken =>
    rintro ⟨span, positional, named⟩ value rest done
    rcases positional with _ | ⟨argument, others⟩
    · rw [failed] at done
      cases done
    · obtain ⟨between, -, done⟩ := (leaves span argument others named).of_ok done
      exact ((tail between).taken done).imp_left (congrArg (· + 1))
  case missing =>
    rintro ⟨span, positional, named⟩ few
    rcases positional with _ | ⟨argument, others⟩
    · exact .inl ⟨_, _, ⟨what, rfl⟩, failed span named⟩
    · exact (leaves span argument others named).finds (List.subset_cons_self _ _) fun value =>
        (tail value).missing (Nat.lt_of_succ_lt_succ few)
  case surplus =>
    rintro ⟨span, positional, named⟩ argument left
    rcases positional with _ | ⟨first, others⟩
    · cases left
    · exact (leaves span first others named).finds (List.subset_cons_self _ _) fun value =>
        (tail value).surplus left
  case unknown =>
    rintro ⟨span, positional, named⟩ entry enough unknown
    rcases positional with _ | ⟨argument, others⟩
    · cases enough
    · exact (leaves span argument others named).finds (List.subset_cons_self _ _) fun value =>
        (tail value).unknown (Nat.succ.inj enough) unknown

theorem expect {what : String} {next : Value × Span → Taking β}
    (tail : ∀ argument, (next argument).Exhausts count names) :
    (Arguments.expect what >>= next).Exhausts (count + 1) names :=
  one (fun _ _ => rfl) (fun _ argument _ _ => .inl ⟨argument, trivial, rfl⟩) tail

theorem expectContent {what : String} {next : Content → Taking β}
    (tail : ∀ shown, (next shown).Exhausts count names) :
    (Arguments.expectContent what >>= next).Exhausts (count + 1) names := by
  refine one (fun _ _ => rfl) (fun span argument others named => ?_) tail
  have lifted : Arguments.expectContent what ⟨span, argument :: others, named⟩ =
      Arguments.lift (argument.1.display argument.2) ⟨span, others, named⟩ := rfl
  cases shows : argument.1.display argument.2 with
  | ok shown =>
      refine .inl ⟨shown, trivial, ?_⟩
      rw [lifted, shows]
      rfl
  | error fault =>
      obtain ⟨rfl, long⟩ := Value.error_of_display shows
      refine .inr ⟨⟨⟨span, others, named⟩, ?_⟩, argument, List.mem_cons_self, long⟩
      rw [lifted, shows]
      rfl

theorem takeNamed {name : String} {default : Value} {next : Value → Taking β}
    (tail : ∀ value, (next value).Exhausts count names) :
    (Arguments.takeNamed name default >>= next).Exhausts count (name :: names) where
  taken := by
    intro arguments value rest done
    rw [takeNamed_bind] at done
    exact ((tail _).taken done).imp_right forall_mem_without.mp
  missing few := .takeNamed ((tail _).missing few)
  surplus left := .takeNamed ((tail _).surplus left)
  unknown enough unknown := by
    rw [← unknown?_without] at unknown
    exact .takeNamed ((tail _).unknown enough unknown)

end Taking.Exhausts

/-- Whether a function takes any positional arguments, all of which are shown in what it makes, and
then reports the first argument by name that is left. -/
structure Taking.Gathers (taking : Taking Content) (Shows : List (Value × Span) → Content → Prop) :
    Prop where
  taken : ∀ {arguments made rest}, taking arguments = .ok made rest →
    Shows arguments.positional made ∧ ∀ entry ∈ arguments.named, entry.1 ∈ ([] : List String)
  unknown : ∀ {arguments entry}, arguments.unknown? [] = some entry →
    taking.Finds arguments (· = ⟨.unknownArgument entry.1, entry.2.2⟩)

namespace Taking.Gathers

variable {Shows : List (Value × Span) → Content → Prop}

theorem all {step : Taking α} {P : List (Value × Span) → α → Prop}
    (leaves : ∀ arguments, step.Leaves arguments { arguments with positional := [] }
      (P arguments.positional))
    (make : α → Span → Content) (shows : ∀ list shown span, P list shown →
      Shows list (make shown span)) :
    Gathers (do
      let shown ← step
      finish
      return make shown (← callSpan)) Shows where
  taken := by
    intro arguments made rest taken
    obtain ⟨shown, holds, taken⟩ := (leaves arguments).of_ok taken
    have known := ((Exhausts.finish _).taken taken).2
    refine ⟨?_, known⟩
    obtain ⟨span, positional, named⟩ := arguments
    rcases named with _ | ⟨entry, others⟩
    · cases taken
      exact shows _ _ _ holds
    · cases taken
  unknown := by
    intro arguments entry unknown
    exact (leaves arguments).finds (List.nil_subset _) fun shown =>
      (Exhausts.finish _).unknown rfl unknown

variable {Delimits : Value → Prop} {name : String} {default : Value}
  {next : Value → Taking Content}

theorem delimited
    (each : ∀ value, (next value).Gathers Shows ∨
      ¬Delimits value ∧ ∀ arguments made rest, next value arguments ≠ .ok made rest)
    (delimits : Delimits default) :
    (∀ {arguments made rest}, (takeNamed name default >>= next) arguments = .ok made rest →
      Shows arguments.positional made ∧ ∀ entry ∈ arguments.named, entry.1 ∈ [name]) ∧
    ∀ {arguments entry},
      (∀ value span, arguments.named.get? name = some (value, span) → Delimits value) →
      arguments.unknown? [name] = some entry →
      (takeNamed name default >>= next).Finds arguments
        (· = ⟨.unknownArgument entry.1, entry.2.2⟩) := by
  constructor
  · intro arguments made rest taken
    rw [takeNamed_bind] at taken
    rcases each (arguments.given name default) with gathers | ⟨-, fails⟩
    · exact (gathers.taken taken).imp_right forall_mem_without.mp
    · exact absurd taken (fails _ _ _)
  · intro arguments entry accepted unknown
    have given : Delimits (arguments.given name default) := by
      unfold Arguments.given
      cases found : arguments.named.get? name with
      | none => exact delimits
      | some argument => exact accepted _ _ found
    rw [← unknown?_without] at unknown
    rcases each (arguments.given name default) with gathers | ⟨rejects, -⟩
    · exact .takeNamed (gathers.unknown unknown)
    · exact absurd given rejects

end Taking.Gathers

end

namespace Builtin

/-- How many positional arguments a function takes, unless it takes any number. -/
def arity? : Builtin → Option Nat
  | sqrt | abs | norm | floor | ceil | lr | attach | op | upright | overline | underline => some 1
  | frac | root | binom => some 2
  | vec | mat | cases => none

/-- The names of the arguments that a function takes by name. -/
def declares : Builtin → List String
  | vec | mat | cases => ["delim"]
  | attach => ["t", "b"]
  | op => ["limits"]
  | frac | sqrt | root | abs | norm | floor | ceil | lr | binom | upright | overline
  | underline => []

/-- Whether a value names a pair of delimiters, or leaves them as they are. -/
def NamesDelimiters (value : Value) : Prop :=
  value = .none ∨ ∃ entry ∈ delimiterPairs, value = .str entry.1

/-- Whether a function accepts a value for its delimiter. Those without one accept any. -/
def Delimits : Builtin → Value → Prop
  | vec, value | mat, value => NamesDelimiters value
  | cases, value => ∃ text, value = .str text
  | _, _ => True

/-- The cells of an argument of a matrix: the items of an array, or a single one. -/
def cellsOf : Value × Span → List (Value × Span)
  | (.array items, span) => items.map fun item => (item, span)
  | argument => [argument]

/-- Whether contents are what arguments are shown as, one for each in turn. -/
def ShownAs (arguments : List (Value × Span)) (contents : List Content) : Prop :=
  List.Forall₂ (fun argument content => argument.1.display argument.2 = .ok content) arguments
    contents

/-- Whether what a function makes of positional arguments makes use of them all. -/
def Uses : Builtin → List (Value × Span) → Content → Prop
  | vec, positional, made => ∃ children delims span,
      made = .vec children delims span ∧ ShownAs positional children
  | cases, positional, made => ∃ children delim span,
      made = .cases children delim span ∧ ShownAs positional children
  | mat, positional, made => ∃ rows delims span,
      made = .mat rows delims span ∧
        ∃ cells, ShownAs (positional.flatMap cellsOf) cells ∧ rows.flatten.Perm cells
  | function, positional, _ => function.arity? = some positional.length

/-- The row that an argument of a matrix is, if it is an array. -/
def rowOf? : Value × Span → Option (List (Value × Span))
  | (.array cells, span) => some (cells.map fun cell => (cell, span))
  | _ => none

def isLoose : Value × Span → Bool
  | (.array _, _) => false
  | _ => true

theorem flatten_matrixRows (positional : List (Value × Span)) :
    (matrixRows positional).flatten =
      (positional.filterMap rowOf?).flatten ++ positional.filter isLoose := by
  change (if (positional.filter isLoose).isEmpty then positional.filterMap rowOf?
    else positional.filterMap rowOf? ++ [positional.filter isLoose]).flatten = _
  split
  · rename_i none_loose
    rw [List.isEmpty_iff.mp none_loose, List.append_nil]
  · rw [List.flatten_append, List.flatten_singleton]

theorem flatten_matrixRows_perm (positional : List (Value × Span)) :
    (matrixRows positional).flatten.Perm (positional.flatMap cellsOf) := by
  rw [flatten_matrixRows]
  induction positional with
  | nil => exact .nil
  | cons argument rest ih =>
      obtain ⟨value, span⟩ := argument
      rw [List.flatMap_cons]
      cases value with
      | array cells =>
          change (cells.map (fun cell => (cell, span)) ++ _ ++ _).Perm _
          rw [List.append_assoc]
          exact ih.append_left _
      | _ => exact List.perm_middle.trans (ih.cons _)

theorem exists_shownAs_of_rows {positional : List (Value × Span)} {rows : List (List Content)}
    (shows : (matrixRows positional).mapM displayAll = .ok rows) :
    ∃ cells, ShownAs (positional.flatMap cellsOf) cells ∧ rows.flatten.Perm cells := by
  have each : ShownAs (matrixRows positional).flatten rows.flatten :=
    List.rel_flatten ((mapM_eq_ok_iff.mp shows).imp fun _ _ => mapM_eq_ok_iff.mp)
  obtain ⟨cells, shown, perm⟩ :=
    List.perm_comp_forall₂ (flatten_matrixRows_perm positional).symm each
  exact ⟨cells, shown, perm.symm⟩

theorem leaves_allContent (arguments : Arguments) :
    allContent.Leaves arguments { arguments with positional := [] }
      (ShownAs arguments.positional) := by
  have lifted : allContent arguments = match displayAll arguments.positional with
      | .ok shown => .ok shown { arguments with positional := [] }
      | .error fault => .error (.number fault) arguments := by
    change EStateM.bind (lift (displayAll arguments.positional)) _ arguments = _
    cases displayAll arguments.positional <;> rfl
  cases shows : displayAll arguments.positional with
  | ok shown =>
      refine .inl ⟨shown, mapM_eq_ok_iff.mp shows, ?_⟩
      rw [lifted, shows]
  | error fault =>
      obtain ⟨argument, member, failed⟩ := error_of_mapM shows
      obtain ⟨rfl, long⟩ := Value.error_of_display failed
      refine .inr ⟨⟨arguments, ?_⟩, argument, member, long⟩
      rw [lifted, shows]

theorem exists_unwritable_of_cell {positional : List (Value × Span)} {cell : Value × Span}
    (member : cell ∈ positional.flatMap cellsOf) (long : ¬cell.1.IsWritable) :
    ∃ argument ∈ positional, ¬argument.1.IsWritable := by
  obtain ⟨⟨value, span⟩, isArgument, isCell⟩ := List.mem_flatMap.mp member
  refine ⟨_, isArgument, fun writable => long ?_⟩
  cases value with
  | array items =>
      obtain ⟨item, isItem, rfl⟩ := List.mem_map.mp isCell
      exact writable.item isItem
  | _ =>
      rw [List.mem_singleton.mp isCell]
      exact writable

theorem leaves_rows (arguments : Arguments) :
    Taking.Leaves (do lift ((matrixRows (← Arguments.all)).mapM displayAll)) arguments
      { arguments with positional := [] }
      fun rows => (matrixRows arguments.positional).mapM displayAll = .ok rows := by
  have lifted : (do lift ((matrixRows (← Arguments.all)).mapM displayAll) : Taking _) arguments =
      lift ((matrixRows arguments.positional).mapM displayAll)
        { arguments with positional := [] } := rfl
  cases shows : (matrixRows arguments.positional).mapM displayAll with
  | ok rows =>
      refine .inl ⟨rows, rfl, ?_⟩
      rw [lifted, shows]
      rfl
  | error fault =>
      obtain ⟨row, isRow, failed⟩ := error_of_mapM shows
      obtain ⟨cell, inRow, failed⟩ := error_of_mapM failed
      obtain ⟨rfl, long⟩ := Value.error_of_display failed
      refine .inr ⟨⟨{ arguments with positional := [] }, ?_⟩, exists_unwritable_of_cell ?_ long⟩
      · rw [lifted, shows]
        rfl
      · exact (flatten_matrixRows_perm _).subset (List.mem_flatten.mpr ⟨row, isRow, inRow⟩)

open Taking.Exhausts in
theorem exhausts_apply {function : Builtin} {count : Nat} (takes : function.arity? = some count) :
    function.apply.Exhausts count function.declares := by
  cases function with
  | vec | mat | cases => cases takes
  | frac | root | binom =>
      cases takes
      exact expectContent fun _ => expectContent fun _ => finish _
  | attach =>
      cases takes
      exact expectContent fun _ => takeNamed fun _ => takeNamed fun _ => finish _
  | op =>
      cases takes
      exact expect fun _ => takeNamed fun _ => finish _
  | _ =>
      cases takes
      exact expectContent fun _ => finish _

theorem delimiters_cases (value : Value) :
    (∃ pair, delimiters value = pure pair) ∨
      ¬NamesDelimiters value ∧ delimiters value = (do
        failCall (.invalidDelimiter (← lift value.listing.toText))) := by
  unfold delimiters
  split
  · exact .inl ⟨_, rfl⟩
  · rename_i text
    cases found : delimiterPairs.lookup text with
    | some pair => exact .inl ⟨pair, rfl⟩
    | none =>
        refine .inr ⟨?_, rfl⟩
        rintro (isNone | ⟨entry, member, same⟩)
        · cases isNone
        · cases same
          exact bne_iff_ne.mp (List.lookup_eq_none_iff.mp found entry member) rfl
  · rename_i noNone noText
    refine .inr ⟨?_, rfl⟩
    rintro (isNone | ⟨entry, -, same⟩)
    · exact noNone isNone
    · exact noText _ same

theorem gathers_delimiters {Shows : List (Value × Span) → Content → Prop}
    {next : String × String → Taking Content} (gathers : ∀ pair, (next pair).Gathers Shows)
    (value : Value) :
    (delimiters value >>= next).Gathers Shows ∨ ¬NamesDelimiters value ∧
      ∀ arguments made rest, (delimiters value >>= next) arguments ≠ .ok made rest := by
  rcases delimiters_cases value with ⟨pair, accepts⟩ | ⟨rejects, fails⟩
  · rw [accepts]
    exact .inl (gathers pair)
  · refine .inr ⟨rejects, fun arguments made rest => ?_⟩
    rw [fails, bind_assoc]
    change EStateM.bind (lift value.listing.toText) _ arguments ≠ _
    cases value.listing.toText <;> exact nofun

theorem gathers_apply {function : Builtin} (takes : function.arity? = none) :
    (∀ {arguments made rest}, function.apply arguments = .ok made rest →
      function.Uses arguments.positional made ∧
        ∀ entry ∈ arguments.named, entry.1 ∈ ["delim"]) ∧
    ∀ {arguments entry}, (∀ value span, arguments.named.get? "delim" = some (value, span) →
        function.Delimits value) →
      arguments.unknown? ["delim"] = some entry →
      function.apply.Finds arguments (· = ⟨.unknownArgument entry.1, entry.2.2⟩) := by
  -- Only these three functions take any number of arguments.
  cases function with
  | vec =>
      have gathers (pair : String × String) : Taking.Gathers _ vec.Uses := .all
        leaves_allContent (fun children span => .vec children pair span)
        fun _ children span shown => ⟨children, pair, span, rfl, shown⟩
      exact Taking.Gathers.delimited (gathers_delimiters gathers) (.inl rfl)
  | mat =>
      have gathers (pair : String × String) : Taking.Gathers _ mat.Uses := .all
        leaves_rows (fun rows span => .mat rows pair span)
        fun _ rows span shows => ⟨rows, pair, span, rfl, exists_shownAs_of_rows shows⟩
      exact Taking.Gathers.delimited (gathers_delimiters gathers) (.inl rfl)
  | cases =>
      refine Taking.Gathers.delimited (fun value => ?_) ⟨_, rfl⟩
      split
      · rename_i delim
        exact .inl (.all leaves_allContent (fun children span => .cases children delim span)
          fun _ children span shown => ⟨children, delim, span, rfl, shown⟩)
      · rename_i noText
        refine .inr ⟨?_, nofun⟩
        rintro ⟨text, same⟩
        exact noText text same
  | _ => cases takes

theorem declares_of_gathers {function : Builtin} (takes : function.arity? = none) :
    function.declares = ["delim"] := by
  cases function with
  | vec | mat | cases => rfl
  | _ => cases takes

theorem uses_of_length {function : Builtin} {positional : List (Value × Span)}
    (takes : function.arity? = some positional.length) (made : Content) :
    function.Uses positional made := by
  cases function with
  | vec | mat | cases => cases takes
  | _ => exact takes

theorem call_eq_ok_iff {function : Builtin} {arguments : Arguments} {made : Content} :
    function.call arguments = .ok made ↔ ∃ rest, function.apply arguments = .ok made rest := by
  unfold call
  cases function.apply arguments <;> simp

/-- Whether a call stops at an argument with an integer that is too long to be shown. -/
def StopsAtLong (function : Builtin) (arguments : Arguments) : Prop :=
  function.call arguments = .error (.number .integerTooLong) ∧
    ∃ argument ∈ arguments.positional, ¬argument.1.IsWritable

theorem call_of_finds {function : Builtin} {arguments : Arguments} {found : EvalError → Prop}
    (finds : function.apply.Finds arguments found) :
    (∃ error, found error ∧ function.call arguments = .error (.error error)) ∨
      function.StopsAtLong arguments := by
  rcases finds with ⟨error, rest, holds, stopped⟩ | ⟨⟨rest, stopped⟩, long⟩
  · refine .inl ⟨error, holds, ?_⟩
    rw [call, stopped]
  · refine .inr ⟨?_, long⟩
    rw [call, stopped]

end Builtin

open Builtin in
/-- A function that gives a value has ignored none of its arguments. It reports a positional
argument that is missing or left over, and a named one that it does not declare, unless it stops
before at an argument that cannot be shown. -/
theorem arguments_accounted (function : Builtin) (arguments : Arguments) :
    (∀ made, function.call arguments = .ok made →
      function.Uses arguments.positional made ∧
        ∀ entry ∈ arguments.named, entry.1 ∈ function.declares) ∧
      (∀ count ∈ function.arity?, arguments.positional.length < count →
        (∃ what, function.call arguments =
            .error (.error ⟨.missingArgument what, arguments.span⟩) ∧
          (EvalFault.missingArgument what).code = "E312") ∨ function.StopsAtLong arguments) ∧
      (∀ count ∈ function.arity?, ∀ argument, arguments.positional[count]? = some argument →
        (function.call arguments = .error (.error ⟨.surplusArgument, argument.2⟩) ∧
          EvalFault.surplusArgument.code = "E312") ∨ function.StopsAtLong arguments) ∧
      ((∀ count ∈ function.arity?, arguments.positional.length = count) →
        (∀ value span, arguments.named.get? "delim" = some (value, span) →
          function.Delimits value) →
        ∀ entry, arguments.unknown? function.declares = some entry →
          (function.call arguments = .error (.error ⟨.unknownArgument entry.1, entry.2.2⟩) ∧
            (EvalFault.unknownArgument entry.1).code = "E313") ∨
            function.StopsAtLong arguments) := by
  simp only [call_eq_ok_iff]
  cases takes : function.arity? with
  | some count =>
      have exhausts := exhausts_apply takes
      refine ⟨?_, ?_, ?_, ?_⟩
      · rintro made ⟨rest, taken⟩
        obtain ⟨length, known⟩ := exhausts.taken taken
        exact ⟨uses_of_length (length ▸ takes) made, known⟩
      · rintro _ ⟨⟩ few
        refine (call_of_finds (exhausts.missing few)).imp_left ?_
        rintro ⟨_, ⟨what, rfl⟩, stopped⟩
        exact ⟨what, stopped, rfl⟩
      · rintro _ ⟨⟩ argument left
        refine (call_of_finds (exhausts.surplus left)).imp_left ?_
        rintro ⟨_, rfl, stopped⟩
        exact ⟨stopped, rfl⟩
      · intro enough _ entry unknown
        refine (call_of_finds (exhausts.unknown (enough count rfl) unknown)).imp_left ?_
        rintro ⟨_, rfl, stopped⟩
        exact ⟨stopped, rfl⟩
  | none =>
      obtain ⟨taken, unknown⟩ := gathers_apply takes
      rw [declares_of_gathers takes]
      refine ⟨?_, by rintro _ ⟨⟩, by rintro _ ⟨⟩, ?_⟩
      · rintro made ⟨rest, made_of⟩
        exact taken made_of
      · intro _ delimits entry found
        refine (call_of_finds (unknown delimits found)).imp_left ?_
        rintro ⟨_, rfl, stopped⟩
        exact ⟨stopped, rfl⟩

end EquationMap
