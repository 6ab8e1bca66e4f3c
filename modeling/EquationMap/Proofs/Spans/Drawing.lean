import EquationMap.Layout.Equation
import EquationMap.Proofs.Layout.Operands
import EquationMap.Proofs.Spans.Elements
import Mathlib.Data.List.Basic

namespace EquationMap

/-! What is drawn of frames. Putting frames together moves what is drawn of them and adds
nothing to it but the lines of fractions, roots and strokes. -/

variable {Known : Span → Prop} {α : Type} [Length α]

/-- What is drawn: a run of text, or a shape with its span. -/
inductive Figure (α : Type) [Length α] where
  | run (run : TextRun α)
  | shape (shape : Shape α) (span : Span)

def Figure.Sourced (Known : Span → Prop) : Figure α → Prop
  | run drawn => drawn.glyphs ≠ [] ∧ ∀ glyph ∈ drawn.glyphs, Known glyph.span
  | shape _ span => Known span

namespace Item

mutual

def figures : Item α → List (Figure α)
  | group _ _ _ items => figuresOfList items
  | text _ run => [.run run]
  | shape _ drawn span => [.shape drawn span]
  | tag _ _ _ => []

def figuresOfList : List (Item α) → List (Figure α)
  | [] => []
  | item :: rest => item.figures ++ figuresOfList rest

end

theorem figuresOfList_eq (items : List (Item α)) :
    figuresOfList items = items.flatMap figures := by
  induction items with
  | nil => rfl
  | cons item rest induction => rw [figuresOfList, induction, List.flatMap_cons]

@[simp]
theorem figures_moved (offset : Point α) (item : Item α) :
    (item.moved offset).figures = item.figures := by
  cases item <;> simp [moved, figures]

end Item

namespace Frame

def figures (frame : Frame α) : List (Figure α) :=
  frame.items.flatMap Item.figures

@[simp]
theorem figures_soft (width ascent descent : α) : (soft width ascent descent).figures = [] :=
  rfl

@[simp]
theorem figures_empty : (empty : Frame α).figures = [] :=
  rfl

@[simp]
theorem figures_push (frame : Frame α) (item : Item α) :
    (frame.push item).figures = frame.figures ++ item.figures := by
  simp [figures, push]

@[simp]
theorem figures_pushFrame (frame inner : Frame α) (position : Point α) :
    (frame.pushFrame position inner).figures = frame.figures ++ inner.figures := by
  simp [figures, pushFrame, List.flatMap_map]

@[simp]
theorem figures_pushGroup (frame inner : Frame α) (position : Point α) :
    (frame.pushGroup position inner).figures = frame.figures ++ inner.figures := by
  rw [pushGroup, figures_push, Item.figures, Item.figuresOfList_eq]
  rfl

/-- Whether everything drawn in a frame shows a known part of the source. -/
def Sourced (Known : Span → Prop) (frame : Frame α) : Prop :=
  ∀ figure ∈ frame.figures, figure.Sourced Known

end Frame

namespace Part

@[simp]
theorem figures_placeIn (ascent : α) (frame : Frame α) (part : Part α) :
    (part.placeIn ascent frame).figures = frame.figures ++ part.frame.figures := by
  unfold placeIn
  dsimp only
  split <;> simp

@[simp]
theorem figures_compose (parts : List (Part α)) (width : α) :
    (compose parts width).figures = parts.flatMap fun part => part.frame.figures := by
  have placed (ascent : α) (frame : Frame α) :
      (parts.foldl (placeIn ascent) frame).figures =
        frame.figures ++ parts.flatMap fun part => part.frame.figures := by
    induction parts generalizing frame with
    | nil => simp
    | cons part rest induction => simp [induction]
  simp [compose, placed]

end Part

namespace Compose

variable {styles : Styles α} {face : FontFace α} {span : Span}

theorem figures_rowFrom (x : α) (previous : AtomClass)
    (entries : List (AtomClass × Frame α)) :
    ((rowFrom styles x previous entries).1.flatMap fun part => part.frame.figures) =
      entries.flatMap fun entry => entry.2.figures := by
  induction entries generalizing x previous with
  | nil => rfl
  | cons entry rest induction => simp [rowFrom, induction]

theorem figures_of_isVoid {piece : Piece α} (void : isVoid piece = true) :
    piece.frame.figures = [] := by
  have empty : piece.frame.items = [] := by
    simp only [isVoid, Bool.and_eq_true, Frame.isEmpty, List.isEmpty_iff] at void
    exact void.1
  rw [Frame.figures, empty]
  rfl

/-- What takes no place in a row draws nothing, so a row draws what its pieces draw. -/
theorem figures_row (pieces : List (Piece α)) :
    (row styles pieces).frame.figures = pieces.flatMap fun piece => piece.frame.figures := by
  have kept : (pieces.filter fun piece => !isVoid piece).flatMap
      (fun piece => piece.frame.figures) = pieces.flatMap fun piece => piece.frame.figures := by
    induction pieces with
    | nil => rfl
    | cons piece rest induction =>
        cases void : isVoid piece <;> simp [void, induction, figures_of_isVoid]
  rw [← kept]
  unfold row
  split
  · rename_i none_kept
    rw [none_kept]
    rfl
  · rename_i piece only
    rw [only]
    simp
  · rename_i first rest _ several
    rw [several]
    have frames : ((AtomClass.fixBinaries none ((first :: rest).map Piece.cls)).zip
        ((first :: rest).map Piece.frame)).map Prod.snd = (first :: rest).map Piece.frame := by
      rw [List.map_snd_zip]
      simp [AtomClass.length_fixBinaries]
    dsimp only
    split
    · rename_i none_zipped
      rw [none_zipped] at frames
      cases frames
    · rename_i cls frame others zipped
      have drawn := congrArg (List.flatMap Frame.figures) frames
      rw [zipped] at drawn
      simpa [figures_rowFrom, List.flatMap_map] using drawn

theorem figures_fraction (face : FontFace α) (styles : Styles α) (num denom : Frame α)
    (span : Span) :
    ∃ shape, (fraction face styles num denom span).figures =
      num.figures ++ denom.figures ++ [.shape shape span] := by
  simp [fraction, Item.figures]

theorem figures_limits (base : Frame α) (top bottom primes : Option (Frame α)) :
    (limits styles base top bottom primes).figures =
      base.figures ++ top.toList.flatMap Frame.figures ++ bottom.toList.flatMap Frame.figures ++
        primes.toList.flatMap Frame.figures := by
  cases top <;> cases bottom <;> cases primes <;> simp [limits]

theorem figures_scripts (rule : α) (base : Frame α) (top bottom primes : Option (Frame α)) :
    (scripts rule styles base top bottom primes).figures =
      base.figures ++ primes.toList.flatMap Frame.figures ++ top.toList.flatMap Frame.figures ++
        bottom.toList.flatMap Frame.figures := by
  cases top <;> cases bottom <;> cases primes <;> simp [scripts]

theorem figures_root (face : FontFace α) (styles : Styles α) (sign radicand : Frame α)
    (index : Option (Frame α)) (span : Span) :
    ∃ shape, (root face styles sign radicand index span).figures =
      index.toList.flatMap Frame.figures ++ sign.figures ++ radicand.figures ++
        [.shape shape span] := by
  cases index <;> simp [root, Item.figures]

theorem figures_surround (size : α) (body : Frame α) (opening closing : Option (Frame α)) :
    (surround face styles size body opening closing).figures =
      opening.toList.flatMap Frame.figures ++ body.figures ++
        closing.toList.flatMap Frame.figures := by
  cases opening <;> cases closing <;> simp [surround]

theorem figures_gridRow {centered : Bool} {gap baseline x : α} {frame : Frame α}
    (cells : List (Frame α × α)) :
    (gridRow centered gap baseline x frame cells).figures =
      frame.figures ++ (cells.map Prod.fst).flatMap Frame.figures := by
  induction cells generalizing x frame with
  | nil => simp [gridRow]
  | cons cell rest induction => simp [gridRow, induction]

theorem figures_gridRows {centered : Bool} {columnGap rowGap y : α} {widths : List α}
    {frame : Frame α} (rows : List (List (Frame α) × α × α))
    (wide : ∀ row ∈ rows, row.1.length ≤ widths.length) :
    (gridRows centered columnGap rowGap widths y frame rows).figures =
      frame.figures ++
        (rows.map Prod.fst).flatMap fun row => row.flatMap Frame.figures := by
  induction rows generalizing y frame with
  | nil => simp [gridRows]
  | cons row rest induction =>
      obtain ⟨here, later⟩ := List.forall_mem_cons.mp wide
      rw [gridRows, induction later, figures_gridRow, List.map_fst_zip here]
      simp

theorem length_le_columnWidths {cells : List (List (Frame α))} {row : List (Frame α)}
    (member : row ∈ cells) : row.length ≤ (columnWidths cells).length := by
  have grows (lengths : List Nat) (start : Nat) :
      start ≤ lengths.foldl Nat.max start ∧
        ∀ length ∈ lengths, length ≤ lengths.foldl Nat.max start := by
    induction lengths generalizing start with
    | nil => simp
    | cons length rest induction =>
        obtain ⟨first, later⟩ := induction (Nat.max start length)
        rw [List.foldl_cons]
        refine ⟨Nat.le_trans (Nat.le_max_left start length) first, ?_⟩
        exact List.forall_mem_cons.mpr ⟨Nat.le_trans (Nat.le_max_right start length) first, later⟩
  simp only [columnWidths, List.length_map, List.length_range]
  exact (grows _ 0).2 _ (List.mem_map_of_mem member)

theorem figures_grid (centered : Bool) (cells : List (List (Frame α))) :
    (grid face styles centered cells).figures =
      cells.flatMap fun row => row.flatMap Frame.figures := by
  unfold grid
  dsimp only
  rw [figures_gridRows]
  · rw [List.map_fst_zip (by simp)]
    simp
  · intro row member
    exact length_le_columnWidths (List.of_mem_zip member).1

theorem figures_line (face : FontFace α) (styles : Styles α) (above : Bool) (body : Frame α)
    (span : Span) :
    ∃ shape, (line face styles above body span).figures.Perm
      (.shape shape span :: body.figures) := by
  cases above
  · have drawn : ∃ shape, (line face styles false body span).figures =
        body.figures ++ [.shape shape span] := by
      simp [line, Item.figures]
    obtain ⟨shape, drawn⟩ := drawn
    exact ⟨shape, drawn ▸ List.perm_append_singleton _ _⟩
  · have drawn : ∃ shape, (line face styles true body span).figures =
        .shape shape span :: body.figures := by
      simp [line, Item.figures]
    obtain ⟨shape, drawn⟩ := drawn
    exact ⟨shape, drawn ▸ .refl _⟩

theorem figures_alignedFrom {single flushRight : Bool} {ascent x : α} {frame : Frame α}
    (segments : List (Frame α × α)) :
    (alignedFrom single ascent flushRight x frame segments).figures =
      frame.figures ++ (segments.map Prod.fst).flatMap Frame.figures := by
  induction segments generalizing flushRight x frame with
  | nil => simp [alignedFrom]
  | cons segment rest induction => simp [alignedFrom, induction]

theorem figures_stackFrom {leading y : α} {frame : Frame α} (lines : List (Frame α)) :
    (stackFrom leading y frame lines).figures =
      frame.figures ++ lines.flatMap Frame.figures := by
  induction lines generalizing y frame with
  | nil => simp [stackFrom]
  | cons line rest induction => simp [stackFrom, induction]

theorem figures_equation (lines : List (List (Frame α))) :
    (equation styles span lines).figures =
      lines.flatMap fun line => line.flatMap Frame.figures := by
  have aligned (width : α) {line : List (Frame α)} (member : line ∈ lines) :
      (alignedLine (columnWidths lines) width line).figures = line.flatMap Frame.figures := by
    unfold alignedLine
    dsimp only
    rw [figures_alignedFrom, List.map_fst_zip (length_le_columnWidths member)]
    simp
  simp only [equation, stack, Frame.figures_push, figures_stackFrom, Item.figures,
    List.append_nil, List.flatMap_map]
  exact List.flatMap_congr fun line member => aligned _ member

theorem figures_fill (region : Region α) (frame : Frame α) :
    (fill region frame).figures = frame.figures := by
  unfold fill
  split
  · split
    · rw [Frame.figures_pushFrame]
      rfl
    · rfl
  · rfl

end Compose

end EquationMap
