import EquationMap.Evaluation.Function
import EquationMap.Proofs.Spans.Values

namespace EquationMap

/-- What is known of the spans and values that functions are given, of the content that they make
and of the faults of numbers that stop them. -/
structure Knowledge where
  span : Span → Prop
  value : Value → Prop
  content : Content → Prop
  fault : NumberFault → Prop

/-- Whether what is known passes from arrays and dictionaries to their members, from values to what
they are shown as, and from content to the elements made of it. -/
structure Knowledge.Closed (knowledge : Knowledge) : Prop where
  bare : ∀ {value : Value}, value.contents = [] → value.listing.integers = [] →
    knowledge.value value
  item : ∀ {items item}, knowledge.value (.array items) → item ∈ items → knowledge.value item
  entry : ∀ {entries entry}, knowledge.value (.dict entries) → entry ∈ entries →
    knowledge.value entry.2
  shown : ∀ {value span shown}, knowledge.value value → knowledge.span span →
    value.display span = .ok shown → knowledge.content shown
  unshown : ∀ {value span fault}, knowledge.value value → value.display span = .error fault →
    knowledge.fault fault
  unlisted : ∀ {value fault}, knowledge.value value → value.listing.toText = .error fault →
    knowledge.fault fault
  made : ∀ {content : Content}, content.isBare = false → knowledge.span content.span →
    (∀ inner ∈ content.inner, knowledge.content inner) → knowledge.content content

variable {knowledge : Knowledge} {α β : Type} {P : α → Prop} {Q : β → Prop}

/-- Whether all spans and values of arguments are known. -/
structure Arguments.Of (knowledge : Knowledge) (arguments : Arguments) : Prop where
  call : knowledge.span arguments.span
  positional : ∀ argument ∈ arguments.positional,
    knowledge.value argument.1 ∧ knowledge.span argument.2
  named : ∀ entry ∈ arguments.named, knowledge.value entry.2.1 ∧ knowledge.span entry.2.2

/-- Whether an error is at a known span, and the fault of a number is known. -/
def Halt.Of (knowledge : Knowledge) : Halt → Prop
  | .error found => knowledge.span found.span
  | .number fault => knowledge.fault fault

/-- Whether everything taken from known arguments is of some kind, and the arguments left over, or
what stops the taking, are known too. -/
def Taking.Gives (knowledge : Knowledge) (P : α → Prop) (taking : Taking α) : Prop :=
  ∀ arguments, arguments.Of knowledge → match taking arguments with
    | .ok value rest => P value ∧ rest.Of knowledge
    | .error halt _ => halt.Of knowledge

namespace Taking

theorem gives_pure {value : α} (holds : P value) : Gives knowledge P (pure value) :=
  fun _ given => ⟨holds, given⟩

theorem Gives.bind {first : Taking α} {next : α → Taking β} (gives : Gives knowledge P first)
    (later : ∀ value, P value → Gives knowledge Q (next value)) :
    Gives knowledge Q (first >>= next) := by
  intro arguments given
  have here := gives arguments given
  change match EStateM.bind first next arguments with
    | .ok value rest => Q value ∧ rest.Of knowledge
    | .error halt _ => halt.Of knowledge
  unfold EStateM.bind
  split at here
  · rename_i value rest taken
    rw [taken]
    exact later value here.1 rest here.2
  · rename_i halt rest stopped
    rw [stopped]
    exact here

theorem gives_failCall (fault : EvalFault) : Gives knowledge P (Arguments.failCall fault) :=
  fun _ given => given.call

theorem gives_callSpan : Gives knowledge knowledge.span Arguments.callSpan :=
  fun _ given => ⟨given.call, given⟩

theorem gives_get : Gives knowledge (Arguments.Of knowledge) get :=
  fun _ given => ⟨given, given⟩

theorem gives_all : Gives knowledge
    (fun taken => ∀ argument ∈ taken, knowledge.value argument.1 ∧ knowledge.span argument.2)
    Arguments.all :=
  fun _ given => ⟨given.positional, given.call, by simp, given.named⟩

theorem gives_lift {result : Except NumberFault α} (holds : ∀ value, result = .ok value → P value)
    (faults : ∀ fault, result = .error fault → knowledge.fault fault) :
    Gives knowledge P (Arguments.lift result) := by
  intro arguments given
  cases result with
  | ok value => exact ⟨holds value rfl, given⟩
  | error fault => exact faults fault rfl

theorem gives_finish : Gives knowledge (fun _ => True) Arguments.finish := by
  rintro ⟨span, positional, named⟩ given
  cases positional with
  | cons first rest => exact (given.positional first List.mem_cons_self).2
  | nil =>
      cases named with
      | cons first rest => exact (given.named first List.mem_cons_self).2
      | nil => exact ⟨trivial, given⟩

theorem gives_eat : Gives knowledge
    (fun argument : Option (Value × Span) => ∀ found, argument = some found →
      knowledge.value found.1 ∧ knowledge.span found.2) Arguments.eat := by
  rintro ⟨span, positional, named⟩ given
  cases positional with
  | nil => exact ⟨nofun, given⟩
  | cons first rest =>
      obtain ⟨here, later⟩ := List.forall_mem_cons.mp given.positional
      refine ⟨?_, given.call, later, given.named⟩
      rintro found ⟨⟩
      exact here

theorem gives_expect (what : String) : Gives knowledge
    (fun argument => knowledge.value argument.1 ∧ knowledge.span argument.2)
    (Arguments.expect what) := by
  refine gives_eat.bind fun found known => ?_
  cases found with
  | none => exact gives_failCall _
  | some argument => exact gives_pure (known argument rfl)

theorem gives_takeNamed (name : String) {default : Value} (held : knowledge.value default) :
    Gives knowledge knowledge.value (Arguments.takeNamed name default) := by
  intro arguments given
  unfold Arguments.takeNamed
  split
  · rename_i taken
    split at taken <;> cases taken
    · rename_i span found
      have holds := Entries.of_lookup
        (P := fun argument => knowledge.value argument.1 ∧ knowledge.span argument.2)
        given.named found
      refine ⟨holds.1, given.call, given.positional, ?_⟩
      exact fun entry member => given.named entry (List.mem_filter.mp member).1
    · exact ⟨held, given⟩
  · rename_i stopped
    split at stopped <;> cases stopped

variable (closed : knowledge.Closed)

include closed

theorem gives_display {value : Value} {span : Span} (held : knowledge.value value)
    (known : knowledge.span span) :
    Gives knowledge knowledge.content (Arguments.lift (value.display span)) :=
  gives_lift (fun _ => closed.shown held known) fun _ => closed.unshown held

theorem gives_expectContent (what : String) :
    Gives knowledge knowledge.content (Arguments.expectContent what) := by
  refine (gives_expect what).bind ?_
  rintro ⟨value, span⟩ ⟨held, known⟩
  exact gives_display closed held known

theorem shown_displayAll {list : List (Value × Span)} {shown : List Content}
    (known : ∀ argument ∈ list, knowledge.value argument.1 ∧ knowledge.span argument.2)
    (shows : Arguments.displayAll list = .ok shown) : ∀ child ∈ shown, knowledge.content child := by
  intro child member
  obtain ⟨argument, isTaken, displayed⟩ := exists_of_mem_mapM shows member
  obtain ⟨held, span_known⟩ := known argument isTaken
  exact closed.shown held span_known displayed

theorem unshown_displayAll {list : List (Value × Span)} {fault : NumberFault}
    (known : ∀ argument ∈ list, knowledge.value argument.1 ∧ knowledge.span argument.2)
    (failed : Arguments.displayAll list = .error fault) : knowledge.fault fault := by
  obtain ⟨argument, isTaken, failed⟩ := error_of_mapM failed
  exact closed.unshown (known argument isTaken).1 failed

theorem gives_allContent :
    Gives knowledge (fun children => ∀ child ∈ children, knowledge.content child)
      Arguments.allContent := by
  refine gives_get.bind fun arguments given => ?_
  refine (gives_lift (fun _ => shown_displayAll closed given.positional)
    fun _ => unshown_displayAll closed given.positional).bind fun shown known => ?_
  exact gives_all.bind fun _ _ => gives_pure known

/-- What remains to do after the parameters of a function are filled: report arguments left
over, and make an element at the span of the call. -/
theorem gives_made {make : Span → Content} (span_make : ∀ span, (make span).span = span)
    (bare_make : ∀ span, (make span).isBare = false)
    (known : ∀ span, knowledge.span span → ∀ inner ∈ (make span).inner, knowledge.content inner) :
    Gives knowledge knowledge.content (do
      Arguments.finish
      return make (← Arguments.callSpan)) := by
  refine gives_finish.bind fun _ _ => gives_callSpan.bind fun span span_known => gives_pure ?_
  refine closed.made (bare_make span) ?_ (known span span_known)
  rw [span_make]
  exact span_known

end Taking

namespace Builtin

open Taking

theorem known_matrixRows (closed : knowledge.Closed) {arguments : List (Value × Span)}
    (known : ∀ argument ∈ arguments, knowledge.value argument.1 ∧ knowledge.span argument.2) :
    ∀ row ∈ matrixRows arguments, ∀ cell ∈ row,
      knowledge.value cell.1 ∧ knowledge.span cell.2 := by
  unfold matrixRows
  extract_lets rows loose
  have of_array : ∀ row ∈ rows, ∀ cell ∈ row,
      knowledge.value cell.1 ∧ knowledge.span cell.2 := by
    intro row member cell inRow
    obtain ⟨⟨value, span⟩, isArgument, made⟩ := List.mem_filterMap.mp member
    obtain ⟨held, span_known⟩ := known _ isArgument
    cases value with
    | array cells =>
        cases made
        obtain ⟨item, isItem, rfl⟩ := List.mem_map.mp inRow
        exact ⟨closed.item held isItem, span_known⟩
    | _ => cases made
  intro row isRow cell inRow
  split at isRow
  · exact of_array row isRow cell inRow
  · rcases List.mem_append.mp isRow with isArray | isLast
    · exact of_array row isArray cell inRow
    · rw [List.mem_singleton.mp isLast] at inRow
      exact known cell (List.mem_filter.mp inRow).1

variable (closed : knowledge.Closed)

include closed

theorem gives_delimiters {value : Value} (held : knowledge.value value) :
    Gives knowledge (fun _ => True) (delimiters value) := by
  have invalid : Gives knowledge (fun _ : String × String => True) (do
      Arguments.failCall (.invalidDelimiter (← Arguments.lift value.listing.toText))) :=
    (gives_lift (P := fun _ => True) (fun _ _ => trivial) fun _ => closed.unlisted held).bind
      fun _ _ => gives_failCall _
  unfold delimiters
  split
  · exact gives_pure trivial
  · split
    · exact gives_pure trivial
    · exact invalid
  · exact invalid

theorem gives_rows {list : List (List (Value × Span))}
    (known : ∀ row ∈ list, ∀ cell ∈ row, knowledge.value cell.1 ∧ knowledge.span cell.2) :
    Gives knowledge (fun rows => ∀ cell ∈ rows.flatten, knowledge.content cell)
      (Arguments.lift (list.mapM Arguments.displayAll)) := by
  refine gives_lift (fun rows shows cell member => ?_) fun fault failed => ?_
  · obtain ⟨row, isRow, inRow⟩ := List.mem_flatten.mp member
    obtain ⟨source, isSource, displayed⟩ := exists_of_mem_mapM shows isRow
    exact shown_displayAll closed (known source isSource) displayed cell inRow
  · obtain ⟨row, isRow, failed⟩ := error_of_mapM failed
    exact unshown_displayAll closed (known row isRow) failed

theorem gives_script {value : Value} {span : Span} (held : knowledge.value value)
    (known : knowledge.span span) :
    Gives knowledge (fun shown => ∀ content ∈ shown.toList, knowledge.content content)
      (Arguments.lift (script value span)) := by
  unfold script
  split
  · exact gives_lift (by rintro _ ⟨⟩; simp) nofun
  · refine gives_lift (fun shown made => ?_) fun fault failed => ?_
    · obtain ⟨content, displayed, made⟩ := exists_ok_of_bind made
      cases made
      simpa using closed.shown held known displayed
    · rcases error_of_bind failed with failed | ⟨_, _, ⟨⟩⟩
      exact closed.unshown held failed

theorem gives_enclosed (opening closing : String) :
    Gives knowledge knowledge.content (enclosed opening closing) := by
  refine (gives_expectContent closed _).bind fun body body_known => ?_
  refine gives_made closed (fun _ => rfl) (fun _ => rfl) fun span known => ?_
  have plain (written : String) : knowledge.content (.plain written span) :=
    closed.made rfl known (by simp [Content.plain, Content.inner])
  simp [Content.inner, plain, body_known]

theorem gives_around (what : String) {make : Content → Span → Content}
    (span_make : ∀ body span, (make body span).span = span)
    (inner_make : ∀ body span, (make body span).inner = [body]) :
    Gives knowledge knowledge.content (do
      let body ← Arguments.expectContent what
      Arguments.finish
      return make body (← Arguments.callSpan)) := by
  refine (gives_expectContent closed _).bind fun body body_known => ?_
  refine gives_made closed (span_make body) (fun span => ?_) fun span _ => ?_
  · exact Content.isBare_of_mem_inner (inner_make body span ▸ List.mem_cons_self)
  · rw [inner_make]
    simpa using body_known

theorem gives_pair (first second : String) {make : Content → Content → Span → Content}
    (span_make : ∀ left right span, (make left right span).span = span)
    (inner_make : ∀ left right span, (make left right span).inner = [left, right]) :
    Gives knowledge knowledge.content (do
      let left ← Arguments.expectContent first
      let right ← Arguments.expectContent second
      Arguments.finish
      return make left right (← Arguments.callSpan)) := by
  refine (gives_expectContent closed _).bind fun left left_known => ?_
  refine (gives_expectContent closed _).bind fun right right_known => ?_
  refine gives_made closed (span_make left right) (fun span => ?_) fun span _ => ?_
  · exact Content.isBare_of_mem_inner (inner_make left right span ▸ List.mem_cons_self)
  · rw [inner_make]
    simp [left_known, right_known]

theorem gives_apply (function : Builtin) :
    Gives knowledge knowledge.content function.apply := by
  have absent : knowledge.value .none := closed.bare rfl rfl
  cases function with
  | frac => exact gives_pair closed _ _ (fun _ _ _ => rfl) (fun _ _ _ => rfl)
  | root => exact gives_pair closed _ _ (fun _ _ _ => rfl) (fun _ _ _ => rfl)
  | binom => exact gives_pair closed _ _ (fun _ _ _ => rfl) (fun _ _ _ => rfl)
  | sqrt => exact gives_around closed _ (fun _ _ => rfl) (fun _ _ => rfl)
  | upright => exact gives_around closed _ (fun _ _ => rfl) (fun _ _ => rfl)
  | overline => exact gives_around closed _ (fun _ _ => rfl) (fun _ _ => rfl)
  | underline => exact gives_around closed _ (fun _ _ => rfl) (fun _ _ => rfl)
  | abs | norm | floor | ceil => exact gives_enclosed closed _ _
  | lr =>
      refine (gives_expectContent closed _).bind fun body body_known => ?_
      refine gives_finish.bind fun _ _ => ?_
      split
      · exact gives_pure body_known
      · refine gives_callSpan.bind fun span known => gives_pure ?_
        exact closed.made rfl known (by simpa [Content.inner] using body_known)
  | vec =>
      refine (gives_takeNamed _ absent).bind fun delim held => ?_
      refine (gives_delimiters closed held).bind fun delims _ => ?_
      refine (gives_allContent closed).bind fun children known => ?_
      exact gives_made closed (fun _ => rfl) (fun _ => rfl) fun _ _ => known
  | mat =>
      refine (gives_takeNamed _ absent).bind fun delim held => ?_
      refine (gives_delimiters closed held).bind fun delims _ => ?_
      refine gives_all.bind fun arguments known => ?_
      refine (gives_rows closed (known_matrixRows closed known)).bind fun rows rows_known => ?_
      exact gives_made closed (fun _ => rfl) (fun _ => rfl) fun _ _ => rows_known
  | cases =>
      refine (gives_takeNamed _ (closed.bare rfl rfl)).bind fun delim _ => ?_
      split
      · refine (gives_allContent closed).bind fun children known => ?_
        exact gives_made closed (fun _ => rfl) (fun _ => rfl) fun _ _ => known
      · exact gives_failCall _
  | attach =>
      refine (gives_expectContent closed _).bind fun base base_known => ?_
      refine (gives_takeNamed _ absent).bind fun top top_held => ?_
      refine (gives_takeNamed _ absent).bind fun bottom bottom_held => ?_
      refine gives_finish.bind fun _ _ => gives_callSpan.bind fun span known => ?_
      refine (gives_script closed top_held known).bind fun top top_known => ?_
      refine (gives_script closed bottom_held known).bind fun bottom bottom_known => ?_
      refine gives_pure (closed.made rfl known ?_)
      intro element member
      simp only [Content.inner, Option.toList_none, List.append_nil, List.mem_cons,
        List.mem_append] at member
      rcases member with (rfl | inTop) | inBottom
      · exact base_known
      · exact top_known element inTop
      · exact bottom_known element inBottom
  | op =>
      refine (gives_expect _).bind fun text _ => ?_
      refine (gives_takeNamed _ (closed.bare rfl rfl)).bind fun limits _ => ?_
      refine gives_finish.bind fun _ _ => ?_
      split
      · refine gives_callSpan.bind fun span known => gives_pure ?_
        exact closed.made rfl known (by simp [Content.inner])
      · exact gives_failCall _
      · exact gives_failCall _

theorem known_of_call (function : Builtin) {arguments : Arguments}
    (given : arguments.Of knowledge) : match function.call arguments with
      | .ok made => knowledge.content made
      | .error halt => halt.Of knowledge := by
  have gives := gives_apply closed function arguments given
  unfold call
  split at gives
  · rename_i applied
    rw [applied]
    exact gives.1
  · rename_i stopped
    rw [stopped]
    exact gives

end Builtin

end EquationMap
