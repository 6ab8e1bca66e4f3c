import EquationMap.Proofs.Answers.Faults
import EquationMap.Proofs.Layout.Equation

namespace EquationMap

open Outcome

variable {Known : Span → Prop} {β γ : Type}

def LayoutStop.Traced (Known : Span → Prop) : LayoutStop → Prop
  | .tooDeep span => Known span
  | .bareElement | .noFace => True

def Layouting.Traced (Known : Span → Prop) (layout : Layouting β) : Prop :=
  layout.Blames (fun error => Known error.span) (LayoutStop.Traced Known)

namespace Layouting.Traced

theorem pure (value : β) : Traced Known (pure value : Layouting β) :=
  blames_pure value

theorem bind {first : Layouting β} {next : β → Layouting γ} (traced : first.Traced Known)
    (later : ∀ value, (next value).Traced Known) : (first >>= next).Traced Known :=
  Blames.bind traced fun value _ => later value

end Layouting.Traced

variable {α : Type} [Length α] {faces : List (FontFace α)} {styles : Styles α} {levels : Nat}
  {span : Span}

theorem TextRun.traced_layout (text : String) (size : α) (italic : Bool) (known : Known span) :
    (TextRun.layout faces styles text size span italic).Traced Known := by
  unfold TextRun.layout
  split
  · exact .pure _
  · refine .bind ?_ fun _ => .pure _
    exact blames_report known

namespace Layout

theorem traced_primaryFace : (primaryFace faces).Traced Known := by
  unfold primaryFace
  split
  · exact blames_stop trivial
  · exact .pure _

theorem traced_text (written : String) (upright limits : Bool) (known : Known span) :
    (text faces styles written upright limits span).Traced Known := by
  unfold text
  refine (TextRun.traced_layout _ _ _ known).bind fun frame => ?_
  split
  · exact traced_primaryFace.bind fun face => .pure _
  · exact .pure _

theorem traced_delimiterText (size : α) (written : String) (known : Known span) :
    (delimiterText faces styles size written span).Traced Known := by
  unfold delimiterText
  split
  · exact .pure _
  · exact (TextRun.traced_layout _ _ _ known).bind fun frame => .pure _

theorem traced_delimitedGrid (centered : Bool) (opening closing : String)
    (cells : List (List (Frame α))) (known : Known span) :
    (delimitedGrid faces styles centered opening closing span cells).Traced Known := by
  unfold delimitedGrid
  refine traced_primaryFace.bind fun face => ?_
  refine (traced_delimiterText _ _ known).bind fun before => ?_
  exact (traced_delimiterText _ _ known).bind fun after => .pure _

/-- Whether the layout of an element errs only at known spans, by itself and as part of a row. -/
structure Traced (Known : Span → Prop) (faces : List (FontFace α)) (content : Content) : Prop where
  alone : ∀ levels styles, (element faces levels styles content).Traced Known
  members : ∀ levels styles children span, content = .sequence children span →
    (pieces faces levels styles children).Traced Known

theorem traced_pieces {children : List Content}
    (traced : ∀ child ∈ children, Traced Known faces child) :
    (pieces faces levels styles children).Traced Known := by
  induction children with
  | nil =>
      rw [pieces]
      exact .pure _
  | cons child rest induction =>
      obtain ⟨here, later⟩ := List.forall_mem_cons.mp traced
      unfold pieces
      split
      · exact .pure _
      · rename_i children span rest same
        obtain ⟨rfl, rfl⟩ := List.cons.inj same
        refine (here.members levels styles children span rfl).bind fun first => ?_
        exact (induction later).bind fun others => .pure _
      · rename_i span rest same
        obtain ⟨rfl, rfl⟩ := List.cons.inj same
        exact induction later
      · rename_i span rest same
        obtain ⟨rfl, rfl⟩ := List.cons.inj same
        exact induction later
      · rename_i child rest _ _ _ same
        obtain ⟨rfl, rfl⟩ := List.cons.inj same
        refine (here.alone levels styles).bind fun first => ?_
        exact (induction later).bind fun others => .pure _

theorem traced_cells {children : List Content}
    (traced : ∀ child ∈ children, Traced Known faces child) :
    (cells faces levels styles children).Traced Known := by
  induction children with
  | nil =>
      rw [cells]
      exact .pure _
  | cons child rest induction =>
      obtain ⟨here, later⟩ := List.forall_mem_cons.mp traced
      rw [cells]
      refine (here.alone levels styles).bind fun first => ?_
      exact (induction later).bind fun others => .pure _

theorem traced_cellRows {rows : List (List Content)}
    (traced : ∀ row ∈ rows, ∀ child ∈ row, Traced Known faces child) :
    (cellRows faces levels styles rows).Traced Known := by
  induction rows with
  | nil =>
      rw [cellRows]
      exact .pure _
  | cons row rest induction =>
      obtain ⟨here, later⟩ := List.forall_mem_cons.mp traced
      rw [cellRows]
      refine (traced_cells here).bind fun first => ?_
      exact (induction later).bind fun others => .pure _

theorem traced_optional {content : Option Content}
    (traced : ∀ child ∈ content.toList, Traced Known faces child) :
    (optional faces levels styles content).Traced Known := by
  cases content with
  | none =>
      rw [optional]
      exact .pure _
  | some child =>
      rw [optional]
      exact ((traced child (by simp)).alone levels styles).bind fun piece => .pure _

theorem traced_delimiter {size : α} {content : Option Content}
    (traced : ∀ child ∈ content.toList, Known child.span ∧ Traced Known faces child) :
    (delimiter faces levels styles size content).Traced Known := by
  unfold delimiter
  split
  · exact .pure _
  · obtain ⟨known, -⟩ := traced _ (List.mem_singleton_self _)
    exact (TextRun.traced_layout _ _ _ known).bind fun frame => .pure _
  · obtain ⟨-, traced⟩ := traced _ (List.mem_singleton_self _)
    exact (traced.alone levels styles).bind fun piece => .pure _

theorem traced_attach {base : Content} {top bottom marks : Option Content}
    (traced : ∀ inner ∈ (Content.attach base top bottom marks span).inner,
      Traced Known faces inner) :
    (element faces (levels + 1) styles (.attach base top bottom marks span)).Traced Known := by
  have base_traced := traced base (by simp [Content.inner])
  have top_traced : ∀ child ∈ top.toList, Traced Known faces child :=
    fun child member => traced child (by simp [Content.inner, Option.mem_toList.mp member])
  have bottom_traced : ∀ child ∈ bottom.toList, Traced Known faces child :=
    fun child member => traced child (by simp [Content.inner, Option.mem_toList.mp member])
  have marks_traced : ∀ child ∈ marks.toList, Traced Known faces child :=
    fun child member => traced child (by simp [Content.inner, Option.mem_toList.mp member])
  rw [element]
  refine (base_traced.alone levels styles).bind fun piece => ?_
  refine (traced_optional top_traced).bind fun above => ?_
  refine (traced_optional bottom_traced).bind fun below => ?_
  refine (traced_optional marks_traced).bind fun primes => ?_
  split
  · exact .pure _
  · dsimp only
    split
    · exact (traced_primaryFace.bind fun face => .pure _).bind fun rule => .pure _
    · exact (Layouting.Traced.pure _).bind fun rule => .pure _

theorem traced_root {index : Option Content} {radicand : Content} (known : Known span)
    (traced : ∀ inner ∈ (Content.root index radicand span).inner, Traced Known faces inner) :
    (element faces (levels + 1) styles (.root index radicand span)).Traced Known := by
  have radicand_traced := traced radicand (by simp [Content.inner])
  have index_traced : ∀ child ∈ index.toList, Traced Known faces child :=
    fun child member => traced child (by simp [Content.inner, Option.mem_toList.mp member])
  rw [element]
  refine (radicand_traced.alone levels styles).bind fun piece => ?_
  refine traced_primaryFace.bind fun face => ?_
  refine (TextRun.traced_layout _ _ _ known).bind fun sign => ?_
  exact (traced_optional index_traced).bind fun degree => .pure _

theorem traced_lr {opening closing : Option Content} {body : Content}
    (traced : ∀ inner ∈ (Content.lr opening body closing span).inner,
      Known inner.span ∧ Traced Known faces inner) :
    (element faces (levels + 1) styles (.lr opening body closing span)).Traced Known := by
  have body_traced := (traced body (by simp [Content.inner])).2
  have opening_traced : ∀ child ∈ opening.toList, Known child.span ∧ Traced Known faces child :=
    fun child member => traced child (by simp [Content.inner, Option.mem_toList.mp member])
  have closing_traced : ∀ child ∈ closing.toList, Known child.span ∧ Traced Known faces child :=
    fun child member => traced child (by simp [Content.inner, Option.mem_toList.mp member])
  rw [element]
  refine (body_traced.alone levels styles).bind fun piece => ?_
  refine traced_primaryFace.bind fun face => ?_
  refine (traced_delimiter opening_traced).bind fun before => ?_
  exact (traced_delimiter closing_traced).bind fun after => .pure _

theorem traced_element {content : Content} (known : Known content.span)
    (below : ∀ inner ∈ content.inner, Known inner.span ∧ Traced Known faces inner)
    (levels : Nat) : (element faces levels styles content).Traced Known := by
  have traced : ∀ inner ∈ content.inner, Traced Known faces inner :=
    fun inner member => (below inner member).2
  cases levels with
  | zero =>
      unfold element
      exact blames_stop known
  | succ levels =>
      cases content with
      | bare =>
          rw [element]
          exact blames_stop trivial
      | sequence =>
          rw [element]
          exact (traced_pieces traced).bind fun set => .pure _
      | text =>
          rw [element]
          exact traced_text _ _ _ known
      | op | primes =>
          rw [element]
          exact (TextRun.traced_layout _ _ _ known).bind fun frame => .pure _
      | frac num denom =>
          rw [element]
          refine ((traced num (by simp [Content.inner])).alone _ _).bind fun above => ?_
          refine ((traced denom (by simp [Content.inner])).alone _ _).bind fun below => ?_
          exact traced_primaryFace.bind fun face => .pure _
      | attach => exact traced_attach traced
      | root => exact traced_root known traced
      | lr => exact traced_lr below
      | alignPoint | linebreak =>
          rw [element]
          exact .pure _
      | vec | cases =>
          rw [element]
          exact (traced_cells traced).bind fun set => traced_delimitedGrid _ _ _ _ known
      | mat rows =>
          rw [element]
          refine (traced_cellRows ?_).bind fun set => traced_delimitedGrid _ _ _ _ known
          exact List.forall_mem_flatten.mp traced
      | binom upper lower =>
          rw [element]
          refine ((traced upper (by simp [Content.inner])).alone _ _).bind fun above => ?_
          refine ((traced lower (by simp [Content.inner])).alone _ _).bind fun below => ?_
          exact traced_delimitedGrid _ _ _ _ known
      | overline body | underline body =>
          rw [element]
          refine ((traced body (by simp [Content.inner])).alone _ _).bind fun piece => ?_
          exact traced_primaryFace.bind fun face => .pure _
      | upright body | equation body =>
          rw [element]
          exact (traced body (by simp [Content.inner])).alone _ _

theorem traced_spanned {content : Content} (spanned : content.Spanned Known) :
    Traced Known faces content := by
  induction content using Content.induction with
  | step content induction =>
      obtain ⟨known, -, below⟩ := Content.spanned_iff.mp spanned
      have traced : ∀ inner ∈ content.inner, Known inner.span ∧ Traced Known faces inner :=
        fun inner member => ⟨(below inner member).here, induction inner member (below inner member)⟩
      constructor
      · intro levels styles
        exact traced_element known traced levels
      · rintro levels styles children span rfl
        exact traced_pieces fun child member => (traced child member).2

theorem traced_segments {line : List (List Content)}
    (spanned : ∀ segment ∈ line, ∀ content ∈ segment, content.Spanned Known) :
    (segments faces styles line).Traced Known := by
  induction line with
  | nil =>
      rw [segments]
      exact .pure _
  | cons segment rest induction =>
      obtain ⟨here, later⟩ := List.forall_mem_cons.mp spanned
      rw [segments]
      refine (traced_pieces fun child member => traced_spanned (here child member)).bind ?_
      exact fun set => (induction later).bind fun others => .pure _

theorem traced_lines {divided : List (List (List Content))}
    (spanned : ∀ line ∈ divided, ∀ segment ∈ line, ∀ content ∈ segment, content.Spanned Known) :
    (lines faces styles divided).Traced Known := by
  induction divided with
  | nil =>
      rw [lines]
      exact .pure _
  | cons line rest induction =>
      obtain ⟨here, later⟩ := List.forall_mem_cons.mp spanned
      rw [lines]
      refine (traced_segments here).bind fun first => ?_
      exact (induction later).bind fun others => .pure _

theorem spanned_flattenOne {body : Content} (spanned : body.Spanned Known) :
    ∀ content ∈ flattenOne body, content.Spanned Known := by
  induction body using flattenOne_induction with
  | atom content alone =>
      rw [alone]
      exact List.forall_mem_singleton.mpr spanned
  | sequence children span induction split =>
      obtain ⟨-, -, below⟩ := Content.spanned_iff.mp spanned
      rw [split, List.forall_mem_flatMap]
      exact fun child member => induction child member (below child member)

theorem traced_equation {body : Content} (spanned : body.Spanned Known) :
    (equation faces styles body span).Traced Known := by
  have divided : ∀ content ∈ (divide (flatten [body])).flatten.flatten,
      content.Spanned Known := by
    intro content member
    rw [flatten_divide, flatten_eq, List.flatMap_singleton] at member
    exact spanned_flattenOne spanned content (List.mem_of_mem_filter member)
  unfold equation
  refine (traced_lines ?_).bind fun set => .pure _
  exact List.forall_mem_flatten.mp (List.forall_mem_flatten.mp divided)

/-- An equation that cannot be laid out has errors, all at elements of its body, if there is a
face to set it in. -/
theorem errors_of_spanned_block {body : Content} {region : Region α} {errors : List LayoutError}
    (some_face : FontFace.select (FontFace.catalog : List (FontFace α)) styles.families
      styles.weight ≠ [])
    (spanned : body.Spanned Known)
    (failed : block body span styles region = .error (.errors errors)) :
    errors ≠ [] ∧ ∀ error ∈ errors, Known error.span := by
  have traced (faces : List (FontFace α)) : (equation faces styles body span).Traced Known :=
    traced_equation spanned
  unfold block at failed
  split at failed
  · rename_i none
    exact absurd none some_face
  · dsimp only at failed
    split at failed
    · rename_i frame made
      split at failed
      · cases failed
      · rename_i reported
        cases failed
        exact ⟨fun none => reported (List.isEmpty_iff.mpr none), (traced _).reports⟩
    · rename_i deep stopped
      cases failed
      have here : Known deep := (traced _).stops _ stopped
      refine ⟨List.append_ne_nil_of_right_ne_nil _ (List.cons_ne_nil _ _), ?_⟩
      exact List.forall_mem_append.mpr ⟨(traced _).reports, List.forall_mem_singleton.mpr here⟩
    · cases failed

end Layout

theorem FontFace.select_standard :
    select (catalog : List (FontFace α)) (Styles.standard : Styles α).families
      (Styles.standard : Styles α).weight ≠ [] := by
  simp [select, Styles.standard, catalog, best?]

end EquationMap
