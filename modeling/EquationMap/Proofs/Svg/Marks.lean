import EquationMap.Proofs.Decimal.Figures
import EquationMap.Proofs.Geometry.Extent
import EquationMap.Proofs.Spans.Fragments
import EquationMap.Proofs.Svg.Reading
import EquationMap.Rendering
import Mathlib.Data.List.Forall2
import Mathlib.Order.Bounds.Defs

namespace EquationMap

/-- A run or shape with the positions that it stands at: those of the groups around it, from the
outermost on, and its own. -/
structure PlacedFigure (α : Type) [Length α] where
  positions : List (Point α)
  figure : Figure α

section

variable {α : Type} [Length α]

mutual

/-- The runs and shapes of an item among groups at the given positions. -/
def Item.placed (around : List (Point α)) : Item α → List (PlacedFigure α)
  | .group position _ _ items => Item.placedOfList (around ++ [position]) items
  | .text position run => [⟨around ++ [position], .run run⟩]
  | .shape position drawn span => [⟨around ++ [position], .shape drawn span⟩]
  | .tag _ _ _ => []

def Item.placedOfList (around : List (Point α)) : List (Item α) → List (PlacedFigure α)
  | [] => []
  | item :: rest => item.placed around ++ Item.placedOfList around rest

end

def Frame.placed (frame : Frame α) : List (PlacedFigure α) :=
  Item.placedOfList [] frame.items

/-- Where a run or shape stands in the frame. -/
def PlacedFigure.place (placed : PlacedFigure α) : Point α :=
  placed.positions.foldl (· + ·) .origin

namespace Figure

def corners : Figure α → Corners α
  | run drawn => drawn.corners
  | shape drawn _ => drawn.corners

/-- Whether a figure can be drawn, and shows some part of the source. -/
def Showable (resolver : Resolver) : Figure α → Prop
  | run drawn => drawn.fill ≠ none ∧ ∃ glyph ∈ drawn.glyphs, resolver glyph.span ≠ none
  | shape _ span => resolver span ≠ none

end Figure

end

/-- An element that shows something, with the transforms that apply to it, from the outermost on. -/
structure Mark where
  transforms : List String
  tag : String
  attributes : List (String × String)
  text : String

namespace Markup

mutual

/-- The texts, rectangles and paths of a document, in order. -/
def marks (around : List String) : Markup → List Mark
  | element tag attributes text children =>
      let transforms := around ++ (attributes.lookup "transform").toList
      let below := marksOfList transforms children
      if tag = "text" ∨ tag = "rect" ∨ tag = "path" then
        ⟨transforms, tag, attributes, text⟩ :: below
      else below

def marksOfList (around : List String) : List Markup → List Mark
  | [] => []
  | first :: rest => first.marks around ++ marksOfList around rest

end

theorem marks_of_shown {tag text : String} {attributes : List (String × String)}
    (shown : tag = "text" ∨ tag = "rect" ∨ tag = "path") (transform : String)
    (given : attributes.lookup "transform" = some transform) (around : List String) :
    (element tag attributes text []).marks around =
      [⟨around ++ [transform], tag, attributes, text⟩] := by
  rw [marks, given, if_pos shown]
  rfl

theorem attributes_named {attributes : List (String × String)} (names : List String)
    (same : attributes.map Prod.fst = names)
    (named : ∀ name ∈ names, name ≠ "" ∧ isName name = true) :
    ∀ pair ∈ attributes, pair.1 ≠ "" ∧ isName pair.1 = true := by
  rw [← same] at named
  exact List.forall_mem_map.mp named

end Markup

def Point.transform (position : Point Float) : String :=
  "translate(" ++ Svg.number position.x ++ " " ++ Svg.number position.y ++ ")"

namespace PlacedFigure

/-- Whether an element draws a run or shape where it stands. A text has a coordinate for every
glyph. -/
structure IsDrawnBy (placed : PlacedFigure Float) (mark : Mark) : Prop where
  transforms : mark.transforms = placed.positions.map Point.transform
  element : match placed.figure with
    | .run run => mark.tag = "text" ∧ mark.text = run.text ∧
        ∃ places, mark.attributes.lookup "x" = some places ∧
          (places.toList.splitOn ' ').length = run.glyphs.length
    | .shape drawn _ => match drawn.geometry with
        | .rect _ => mark.tag = "rect"
        | .line _ => mark.tag = "path"

end PlacedFigure

namespace Svg

theorem space_not_mem_number (value : Float) : ' ' ∉ (number value).toList := by
  unfold number
  extract_lets text
  split
  · decide
  · simp only [text, trimmed, String.toList_ofList]
    intro member
    have kept := (List.dropWhile_sublist _).subset (List.mem_reverse.mp member)
    have inText := List.mem_reverse.mp ((List.dropWhile_sublist _).subset kept)
    exact Decimal.not_mem_toFixed (by decide) inText

theorem length_glyphPlaces (size x : Float) (glyphs : List (Glyph Float)) :
    (glyphPlaces size x glyphs).length = glyphs.length := by
  induction glyphs generalizing x with
  | nil => rfl
  | cons glyph rest induction => rw [glyphPlaces, List.length_cons, induction, List.length_cons]

theorem exists_number_of_mem_glyphPlaces {size x : Float} {glyphs : List (Glyph Float)} :
    ∀ place ∈ glyphPlaces size x glyphs, ∃ value, place = number value := by
  induction glyphs generalizing x with
  | nil => simp [glyphPlaces]
  | cons glyph rest induction => exact List.forall_mem_cons.mpr ⟨⟨_, rfl⟩, induction⟩

theorem splitOn_glyphPlaces (size x : Float) {glyphs : List (Glyph Float)} (some : glyphs ≠ []) :
    (" ".intercalate (glyphPlaces size x glyphs)).toList.splitOn ' ' =
      (glyphPlaces size x glyphs).map String.toList := by
  rw [String.toList_intercalate]
  apply List.splitOn_intercalate
  · refine List.forall_mem_map.mpr fun place member space => ?_
    obtain ⟨value, rfl⟩ := exists_number_of_mem_glyphPlaces place member
    exact space_not_mem_number value space
  · intro none
    apply some
    rw [List.map_eq_nil_iff, ← List.length_eq_zero_iff, length_glyphPlaces] at none
    exact List.length_eq_zero_iff.mp none

variable {resolver : Resolver} {around : List (Point Float)}

theorem named_text {position : Point Float} {run : TextRun Float} {element : Markup}
    (made : text position run = .ok element) : element.Named := by
  unfold text at made
  split at made
  · cases made
  · cases made
    refine .element (by decide) (List.forall_mem_append.mpr ⟨?_, ?_⟩) (by simp)
    · exact Markup.attributes_named ["transform", "x", "y", "font-family", "font-size",
        "font-weight", "fill"] rfl (by decide)
    · split <;> decide

theorem named_shape (position : Point Float) (drawn : Shape Float) :
    (shape position drawn).Named := by
  unfold shape
  split
  · exact .element (by decide) (Markup.attributes_named
      ["transform", "width", "height", "fill"] rfl (by decide)) (by simp)
  · exact .element (by decide) (Markup.attributes_named
      ["transform", "d", "fill", "stroke", "stroke-width"] rfl (by decide)) (by simp)

theorem named_group {position : Point Float} {children : List Markup}
    (named : ∀ child ∈ children, child.Named) :
    (Markup.element "g" [translate position] "" children).Named :=
  .element (by decide) (Markup.attributes_named ["transform"] rfl (by decide)) named

theorem marks_group (position : Point Float) (children : List Markup) :
    (Markup.element "g" [translate position] "" children).marks (around.map Point.transform) =
      Markup.marksOfList ((around ++ [position]).map Point.transform) children := by
  rw [Markup.marks, if_neg (by decide), List.map_append]
  rfl

theorem marks_text (around : List (Point Float)) {position : Point Float}
    {run : TextRun Float} {element : Markup}
    (made : text position run = .ok element) (some : run.glyphs ≠ []) :
    ∃ mark, element.marks (around.map Point.transform) = [mark] ∧
      PlacedFigure.IsDrawnBy ⟨around ++ [position], .run run⟩ mark := by
  unfold text at made
  split at made
  · cases made
  · cases made
    refine ⟨_, Markup.marks_of_shown (.inl rfl) position.transform rfl _, ?_, ?_⟩
    · rw [List.map_append]
      rfl
    · refine ⟨rfl, rfl, _, rfl, ?_⟩
      rw [splitOn_glyphPlaces _ _ some, List.length_map, length_glyphPlaces]

theorem marks_shape (around : List (Point Float)) (position : Point Float) (drawn : Shape Float)
    (span : Span) :
    ∃ mark, (shape position drawn).marks (around.map Point.transform) = [mark] ∧
      PlacedFigure.IsDrawnBy ⟨around ++ [position], .shape drawn span⟩ mark := by
  have transforms : around.map Point.transform ++ [position.transform] =
      (around ++ [position]).map Point.transform := by
    rw [List.map_append]
    rfl
  unfold shape
  split <;> rename_i geometry
  · refine ⟨_, Markup.marks_of_shown (.inr (.inl rfl)) position.transform rfl _,
      transforms, ?_⟩
    dsimp only
    rw [geometry]
  · refine ⟨_, Markup.marks_of_shown (.inr (.inr rfl)) position.transform rfl _,
      transforms, ?_⟩
    dsimp only
    rw [geometry]

theorem marks_items (around : List (Point Float)) {list : List (Item Float)}
    (showable : ∀ placed ∈ Item.placedOfList around list, placed.figure.Showable resolver) :
    ∃ drawn, items list = .ok drawn ∧ (∀ element ∈ drawn, element.Named) ∧
      List.Forall₂ PlacedFigure.IsDrawnBy (Item.placedOfList around list)
        (Markup.marksOfList (around.map Point.transform) drawn) := by
  -- Along the items as they are drawn. A group adds its position for the items in it only.
  fun_induction items list generalizing around with
  | case1 => exact ⟨[], rfl, by simp, .nil⟩
  | case2 position size baseline inner rest inner_drawn rest_drawn =>
      rw [Item.placedOfList, Item.placed] at showable ⊢
      obtain ⟨inside, later⟩ := List.forall_mem_append.mp showable
      obtain ⟨children, drawn, named, marks⟩ := inner_drawn _ inside
      obtain ⟨others, drawn', named', marks'⟩ := rest_drawn _ later
      rw [drawn, drawn']
      refine ⟨_, rfl, List.forall_mem_cons.mpr ⟨named_group named, named'⟩, ?_⟩
      rw [Markup.marksOfList, marks_group]
      exact List.rel_append marks marks'
  | case3 position run rest rest_drawn =>
      rw [Item.placedOfList, Item.placed, List.singleton_append] at showable ⊢
      obtain ⟨⟨filled, glyph, member, -⟩, later⟩ := List.forall_mem_cons.mp showable
      obtain ⟨others, drawn, named, marks⟩ := rest_drawn _ later
      have made : ∃ element, text position run = .ok element := by
        obtain ⟨fill, isFill⟩ := Option.ne_none_iff_exists'.mp filled
        rw [text, isFill]
        exact ⟨_, rfl⟩
      obtain ⟨element, made⟩ := made
      obtain ⟨mark, only, isDrawn⟩ := marks_text around made (List.ne_nil_of_mem member)
      rw [made, drawn]
      refine ⟨_, rfl, List.forall_mem_cons.mpr ⟨named_text made, named⟩, ?_⟩
      rw [Markup.marksOfList, only]
      exact .cons isDrawn marks
  | case4 position drawn span rest rest_drawn =>
      rw [Item.placedOfList, Item.placed, List.singleton_append] at showable ⊢
      obtain ⟨others, made, named, marks⟩ := rest_drawn _ (List.forall_mem_cons.mp showable).2
      obtain ⟨mark, only, isDrawn⟩ := marks_shape around position drawn span
      rw [made]
      refine ⟨_, rfl, List.forall_mem_cons.mpr ⟨named_shape position drawn, named⟩, ?_⟩
      rw [Markup.marksOfList, only]
      exact .cons isDrawn marks
  | case5 position kind span rest rest_drawn =>
      rw [Item.placedOfList, Item.placed, List.nil_append] at showable ⊢
      exact rest_drawn _ showable

end Svg

namespace Fragment

variable {resolver : Resolver} {around : List (Point Float)} {offset : Point Float}

end Fragment

mutual

theorem Item.figure_of_mem_placed {α : Type} [Length α] {around : List (Point α)}
    {placed : PlacedFigure α} {item : Item α} (member : placed ∈ item.placed around) :
    placed.figure ∈ item.figures := by
  cases item with
  | group position size baseline items =>
      rw [Item.placed] at member
      rw [Item.figures]
      exact Item.figure_of_mem_placedOfList member
  | text | shape =>
      rw [List.mem_singleton.mp member]
      exact List.mem_singleton_self _
  | tag => cases member

theorem Item.figure_of_mem_placedOfList {α : Type} [Length α] {around : List (Point α)}
    {placed : PlacedFigure α} {items : List (Item α)}
    (member : placed ∈ Item.placedOfList around items) :
    placed.figure ∈ Item.figuresOfList items := by
  cases items with
  | nil => cases member
  | cons item rest =>
      rw [Item.placedOfList] at member
      rw [Item.figuresOfList]
      exact List.mem_append.mpr ((List.mem_append.mp member).imp
        Item.figure_of_mem_placed Item.figure_of_mem_placedOfList)

end

/-- Whatever is typeset can be drawn, and all of it shows some part of the source. -/
theorem Typeset.showable {text : String} {formula : Typeset Float}
    (made : typeset text = .ok formula) :
    ∀ placed ∈ formula.frame.placed, placed.figure.Showable formula.source.resolver := by
  obtain ⟨read, evaluated, laid⟩ := exists_stages_of_typeset made
  have sourced := Source.sourced_layout (Source.spanned_evaluate read evaluated) laid
  obtain ⟨faces, draws, -⟩ := Layout.draws_block (Source.block_of_layout laid)
  intro placed member
  have isFigure : placed.figure ∈ formula.frame.figures := by
    rw [Frame.figures, ← Item.figuresOfList_eq]
    exact Item.figure_of_mem_placedOfList member
  have shown := sourced _ isFigure
  have proper := draws.proper _ isFigure
  cases drawn : placed.figure with
  | run run =>
      rw [drawn] at shown proper
      obtain ⟨some_glyph, known⟩ := shown
      obtain ⟨glyph, others, glyphs⟩ := List.exists_cons_of_ne_nil some_glyph
      obtain ⟨range, resolved, -⟩ := known glyph (by simp [glyphs])
      refine ⟨?_, glyph, by simp [glyphs], ?_⟩
      · rw [proper.1]
        exact Option.some_ne_none _
      · rw [resolved]
        exact Option.some_ne_none _
  | shape shape span =>
      rw [drawn] at shown
      obtain ⟨range, resolved, -⟩ := shown
      rw [Figure.Showable, resolved]
      exact Option.some_ne_none _

end EquationMap
