import EquationMap.Evaluation.Function
import EquationMap.Proofs.Display.Shown

namespace EquationMap

/-! The functions of the library show their arguments: those that succeed have taken all of them,
and put each one into what they make. -/

namespace Arguments

variable {α : Type} {arguments rest : Arguments} {value : α}

/-! What a step of a function leaves to the steps after it. -/

theorem of_lift {β : Type} {result : Except NumberFault β} {next : β → Taking α}
    (arguments : Arguments) (taken : (lift result >>= next) arguments = .ok value rest) :
    ∃ made, result = .ok made ∧ next made arguments = .ok value rest := by
  cases result with
  | error fault => cases taken
  | ok made => exact ⟨made, rfl, taken⟩

theorem of_expectContent {what : String} {next : Content → Taking α}
    (taken : (expectContent what >>= next) arguments = .ok value rest) :
    ∃ argument others shown, arguments.positional = argument :: others ∧
      argument.1.display argument.2 = .ok shown ∧
      next shown { arguments with positional := others } = .ok value rest := by
  obtain ⟨span, positional, named⟩ := arguments
  cases positional with
  | nil => cases taken
  | cons argument others =>
      obtain ⟨shown, shows, taken⟩ := of_lift _ taken
      exact ⟨argument, others, shown, rfl, shows, taken⟩

theorem allContent_bind {next : List Content → Taking α} :
    allContent >>= next = (do
      let shown ← lift (displayAll (← get).positional)
      let _ ← all
      next shown) := by
  unfold allContent
  simp only [bind_assoc, pure_bind]

theorem of_allContent {next : List Content → Taking α}
    (taken : (allContent >>= next) arguments = .ok value rest) :
    ∃ shown, displayAll arguments.positional = .ok shown ∧
      next shown { arguments with positional := [] } = .ok value rest := by
  rw [allContent_bind] at taken
  obtain ⟨shown, displayed, taken⟩ := of_lift arguments taken
  exact ⟨shown, displayed, taken⟩

theorem of_expect {what : String} {next : Value × Span → Taking α}
    (taken : (expect what >>= next) arguments = .ok value rest) :
    ∃ argument others, arguments.positional = argument :: others ∧
      next argument { arguments with positional := others } = .ok value rest := by
  obtain ⟨span, positional, named⟩ := arguments
  cases positional with
  | nil => cases taken
  | cons argument others => exact ⟨argument, others, rfl, taken⟩

theorem of_rows {next : List (List Content) → Taking α}
    (taken : (do next (← lift ((Builtin.matrixRows (← all)).mapM displayAll))) arguments =
      .ok value rest) :
    ∃ rows, (Builtin.matrixRows arguments.positional).mapM displayAll = .ok rows ∧
      next rows { arguments with positional := [] } = .ok value rest :=
  of_lift { arguments with positional := [] } taken

theorem of_finish {next : Unit → Taking α}
    (taken : (finish >>= next) arguments = .ok value rest) :
    arguments.positional = [] ∧ next () arguments = .ok value rest := by
  obtain ⟨span, positional, named⟩ := arguments
  cases positional with
  | cons argument others => cases taken
  | nil =>
      cases named with
      | cons entry others => cases taken
      | nil => exact ⟨rfl, taken⟩

theorem of_takeNamed {name : String} {default : Value} {next : Value → Taking α}
    (taken : (takeNamed name default >>= next) arguments = .ok value rest) :
    ∃ found named, next found { arguments with named } = .ok value rest := by
  obtain ⟨span, positional, named⟩ := arguments
  change EStateM.bind (takeNamed name default) next ⟨span, positional, named⟩ = _ at taken
  unfold EStateM.bind takeNamed at taken
  dsimp only at taken
  split at taken
  · rename_i found middle given
    split at given
    · cases given
      exact ⟨_, _, taken⟩
    · cases given
      exact ⟨_, _, taken⟩
  · cases taken

theorem of_delimiters {given : Value} {next : String × String → Taking α}
    (taken : (Builtin.delimiters given >>= next) arguments = .ok value rest) :
    ∃ pair, next pair arguments = .ok value rest := by
  unfold Builtin.delimiters at taken
  split at taken
  · exact ⟨_, taken⟩
  · split at taken
    · exact ⟨_, taken⟩
    · rw [bind_assoc] at taken
      obtain ⟨text, -, taken⟩ := of_lift _ taken
      cases taken
  · rw [bind_assoc] at taken
    obtain ⟨text, -, taken⟩ := of_lift _ taken
    cases taken

end Arguments

open Arguments

namespace Builtin

variable {arguments rest : Arguments} {made : Content} {argument : Value × Span}

/-- Whether what is made shows an argument at the span of the argument. -/
def Presents (made : Content) (argument : Value × Span) : Prop :=
  (Value.content made).Exhibits argument.1 argument.2

theorem presents_around {what : String} (make : Content → Span → Content)
    (inner : ∀ body span, body ∈ (make body span).inner)
    (taken : (do
      let body ← expectContent what
      finish
      return make body (← callSpan)) arguments = .ok made rest) :
    ∀ argument ∈ arguments.positional, Presents made argument := by
  obtain ⟨first, others, shown, positional, displayed, taken⟩ := of_expectContent taken
  obtain ⟨none_left, taken⟩ := of_finish taken
  cases taken
  rw [positional, show others = [] from none_left]
  exact List.forall_mem_singleton.mpr ⟨shown, displayed, Value.presents_inner (inner _ _)⟩

theorem presents_pair {what other : String} {make : Content → Content → Span → Content}
    (inner : ∀ left right span, (make left right span).inner = [left, right])
    (taken : (do
      let left ← expectContent what
      let right ← expectContent other
      finish
      return make left right (← callSpan)) arguments = .ok made rest) :
    ∀ argument ∈ arguments.positional, Presents made argument := by
  obtain ⟨first, others, left, positional, left_shown, taken⟩ := of_expectContent taken
  obtain ⟨second, others', right, positional', right_shown, taken⟩ := of_expectContent taken
  obtain ⟨none_left, taken⟩ := of_finish taken
  cases taken
  have both : arguments.positional = [first, second] := by
    rw [positional, show others = second :: others' from positional',
      show others' = [] from none_left]
  rw [both, List.forall_mem_cons, List.forall_mem_singleton]
  constructor
  · exact ⟨left, left_shown, Value.presents_inner (by rw [inner]; simp)⟩
  · exact ⟨right, right_shown, Value.presents_inner (by rw [inner]; simp)⟩

theorem mem_matrixRows_of_array {list : List (Value × Span)} {cells : List Value} {span : Span}
    {cell : Value} (member : (.array cells, span) ∈ list) (isCell : cell ∈ cells) :
    ∃ row ∈ matrixRows list, (cell, span) ∈ row := by
  refine ⟨cells.map fun cell => (cell, span), ?_, List.mem_map_of_mem isCell⟩
  unfold matrixRows
  extract_lets rows loose
  have among : cells.map (fun cell => (cell, span)) ∈ rows :=
    List.mem_filterMap.mpr ⟨_, member, rfl⟩
  split
  · exact among
  · exact List.mem_append_left _ among

theorem mem_matrixRows_of_stays {list : List (Value × Span)} (member : argument ∈ list)
    (stays : argument.1.Stays) : ∃ row ∈ matrixRows list, argument ∈ row := by
  obtain ⟨value, span⟩ := argument
  unfold matrixRows
  extract_lets rows loose
  have among : (value, span) ∈ loose := by
    refine List.mem_filter.mpr ⟨member, ?_⟩
    cases value with
    | array items => exact stays.elim
    | _ => rfl
  have some_loose : loose.isEmpty = false :=
    List.isEmpty_eq_false_iff.mpr (List.ne_nil_of_mem among)
  rw [some_loose]
  exact ⟨loose, by simp, among⟩

theorem mem_of_displayAll {list : List (Value × Span)} {shown : List Content}
    (displayed : displayAll list = .ok shown) (member : argument ∈ list) :
    ∃ content ∈ shown, argument.1.display argument.2 = .ok content :=
  exists_mem_of_mapM displayed member

theorem mem_of_rows {list : List (List (Value × Span))} {rows : List (List Content)}
    (displayed : list.mapM displayAll = .ok rows) (isCell : ∃ row ∈ list, argument ∈ row) :
    ∃ content ∈ rows.flatten, argument.1.display argument.2 = .ok content := by
  obtain ⟨row, isRow, member⟩ := isCell
  obtain ⟨contents, isShown, shows⟩ := exists_mem_of_mapM displayed isRow
  obtain ⟨content, among, here⟩ := mem_of_displayAll shows member
  exact ⟨content, List.mem_flatten.mpr ⟨contents, isShown, among⟩, here⟩

/-- Every function shows each of its arguments, unless the argument is an array or a text. -/
theorem presents_of_apply {function : Builtin}
    (applied : function.apply arguments = .ok made rest)
    (member : argument ∈ arguments.positional) (stays : argument.1.Stays)
    (placed : argument.2 ≠ .detached) : Presents made argument := by
  cases function with
  | frac => exact presents_pair (fun _ _ _ => rfl) applied argument member
  | root => exact presents_pair (fun _ _ _ => rfl) applied argument member
  | binom => exact presents_pair (fun _ _ _ => rfl) applied argument member
  | sqrt => exact presents_around _ (by simp [Content.inner]) applied argument member
  | upright => exact presents_around _ (by simp [Content.inner]) applied argument member
  | overline => exact presents_around _ (by simp [Content.inner]) applied argument member
  | underline => exact presents_around _ (by simp [Content.inner]) applied argument member
  | abs | norm | floor | ceil =>
      unfold apply enclosed at applied
      exact presents_around
        (fun body span => .lr (some (.plain _ span)) body (some (.plain _ span)) span)
        (by simp [Content.inner]) applied argument member
  | lr =>
      obtain ⟨first, others, body, positional, displayed, applied⟩ := of_expectContent applied
      obtain ⟨none_left, applied⟩ := of_finish applied
      rw [positional, show others = [] from none_left, List.mem_singleton] at member
      rw [member] at stays placed ⊢
      have own := Value.span_display_ne displayed placed
      refine ⟨body, displayed, ?_⟩
      -- A body with delimiters of its own is what the function makes.
      cases body with
      | lr opening inner closing span =>
          cases applied
          exact ⟨trivial, Value.shows_self own⟩
      | _ =>
          cases applied
          exact Value.presents_inner (by simp [Content.inner])
  | vec =>
      obtain ⟨delim, named, applied⟩ := of_takeNamed applied
      obtain ⟨delims, applied⟩ := of_delimiters applied
      obtain ⟨children, displayed, applied⟩ := of_allContent applied
      obtain ⟨shown, isChild, here⟩ := mem_of_displayAll displayed member
      cases (of_finish applied).2
      exact ⟨shown, here, Value.presents_inner isChild⟩
  | mat =>
      obtain ⟨delim, named, applied⟩ := of_takeNamed applied
      obtain ⟨delims, applied⟩ := of_delimiters applied
      obtain ⟨rows, displayed, applied⟩ := of_rows applied
      obtain ⟨shown, isCell, here⟩ :=
        mem_of_rows displayed (mem_matrixRows_of_stays member stays)
      cases (of_finish applied).2
      exact ⟨shown, here, Value.presents_inner isCell⟩
  | cases =>
      obtain ⟨delim, named, applied⟩ := of_takeNamed applied
      split at applied
      · obtain ⟨children, displayed, applied⟩ := of_allContent applied
        obtain ⟨shown, isChild, here⟩ := mem_of_displayAll displayed member
        cases (of_finish applied).2
        exact ⟨shown, here, Value.presents_inner isChild⟩
      · cases applied
  | attach =>
      obtain ⟨first, others, base, positional, displayed, applied⟩ := of_expectContent applied
      obtain ⟨top, named, applied⟩ := of_takeNamed applied
      obtain ⟨bottom, named', applied⟩ := of_takeNamed applied
      obtain ⟨none_left, applied⟩ := of_finish applied
      rw [positional, show others = [] from none_left, List.mem_singleton] at member
      obtain ⟨above, -, applied⟩ := of_lift _ applied
      obtain ⟨below, -, applied⟩ := of_lift _ applied
      cases applied
      rw [member]
      exact ⟨base, displayed, Value.presents_inner (by simp [Content.inner])⟩
  | op =>
      obtain ⟨first, others, positional, applied⟩ := of_expect applied
      obtain ⟨limits, named, applied⟩ := of_takeNamed applied
      obtain ⟨none_left, applied⟩ := of_finish applied
      rw [positional, show others = [] from none_left, List.mem_singleton] at member
      rw [member] at stays
      -- An operator is made of a text only, which does not keep its look.
      obtain ⟨value, span⟩ := first
      cases value with
      | symbol written limits => cases applied
      | content shown =>
          cases shown with
          | text => exact stays.elim
          | _ => cases applied
      | _ => exact stays.elim

theorem presents_of_call {function : Builtin} (called : function.call arguments = .ok made)
    (member : argument ∈ arguments.positional) (stays : argument.1.Stays)
    (placed : argument.2 ≠ .detached) : Presents made argument := by
  unfold call at called
  split at called
  · rename_i rest applied
    cases called
    exact presents_of_apply applied member stays placed
  · cases called

theorem mem_inner_of_matrix (called : mat.call arguments = .ok made) {cells : List Value}
    {span : Span} (member : (.array cells, span) ∈ arguments.positional) {cell : Value}
    (isCell : cell ∈ cells) : ∃ shown ∈ made.inner, cell.display span = .ok shown := by
  unfold call at called
  split at called
  · rename_i rest applied
    cases called
    obtain ⟨delim, named, applied⟩ := of_takeNamed applied
    obtain ⟨delims, applied⟩ := of_delimiters applied
    obtain ⟨rows, displayed, applied⟩ := of_rows applied
    cases (of_finish applied).2
    exact mem_of_rows displayed (mem_matrixRows_of_array member isCell)
  · cases called

end Builtin

end EquationMap
