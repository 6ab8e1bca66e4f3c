import EquationMap.Proofs.Text.Lines
import EquationMap.Source.Report

namespace EquationMap

/-! What a report shows of the source. The lines of an excerpt are divided at every kind of line
end, while lines are numbered by line feeds alone, so the two agree on the texts that have no
other line ends. -/

namespace Text

/-- The offsets at which the characters of a text start that starts at a given one. -/
def startOffsets (offset : Nat) : List Char → List Nat
  | [] => []
  | c :: rest => offset :: startOffsets (offset + c.utf8Size) rest

theorem le_of_mem_startOffsets {offset start : Nat} {text : List Char}
    (member : start ∈ startOffsets offset text) : offset ≤ start := by
  induction text generalizing offset with
  | nil => cases member
  | cons c rest ih =>
      rcases List.mem_cons.mp member with rfl | later
      · exact Nat.le_refl _
      · have := ih later
        omega

theorem countP_startOffsets (starts : List Nat) {first last : Nat} (le : first ≤ last) :
    starts.countP (· < last) =
      starts.countP (· < first) + starts.countP fun start => first ≤ start ∧ start < last := by
  induction starts with
  | nil => rfl
  | cons start rest ih =>
      simp only [List.countP_cons, ih, decide_eq_true_eq]
      split_ifs <;> omega

/-! The line and the column of an offset. -/

namespace LineColumn

theorem le_line_advance (place : LineColumn) (bytes : Nat) (text : List Char) :
    place.line ≤ (place.advance bytes text).line := by
  induction text generalizing place bytes with
  | nil => cases bytes <;> exact Nat.le_refl _
  | cons c rest ih =>
      cases bytes with
      | zero => exact Nat.le_refl _
      | succ bytes =>
          refine Nat.le_trans ?_ (ih _ _)
          split
          · exact Nat.le_succ _
          · exact Nat.le_refl _

theorem advance_opens {before : List Char} (opens : OpensLine before) {bytes : Nat}
    (enough : byteLength before ≤ bytes) (rest : List Char) :
    advance ⟨1, 1⟩ bytes (before ++ rest) =
      advance ⟨before.count '\n' + 1, 1⟩ (bytes - byteLength before) rest := by
  -- The columns start anew at the last line feed, so the column to start from does not matter.
  have general (place : LineColumn) : before ≠ [] →
      place.advance bytes (before ++ rest) =
        advance ⟨place.line + before.count '\n', 1⟩ (bytes - byteLength before) rest := by
    induction before generalizing place bytes with
    | nil => exact fun nonempty => absurd rfl nonempty
    | cons c before ih =>
        intro _
        have positive := c.utf8Size_pos
        rw [byteLength_cons] at enough
        obtain ⟨fewer, rfl⟩ : ∃ fewer, bytes = fewer + 1 := ⟨bytes - 1, by omega⟩
        rw [List.cons_append, advance, byteLength_cons, ← Nat.sub_sub]
        by_cases feed : c = '\n'
        · subst feed
          rw [if_pos rfl, List.count_cons_self]
          by_cases last : before = []
          · rw [last]
            rfl
          · rw [ih opens.tail_of_feed (by omega) _ last, Nat.add_assoc, Nat.add_comm 1]
        · obtain ⟨more, opens⟩ := opens.tail feed
          rw [if_neg feed, List.count_cons_of_ne feed, ih opens (by omega) _ more]
  by_cases first : before = []
  · rw [first]
    rfl
  · rw [general ⟨1, 1⟩ first, Nat.add_comm 1]

theorem advance_line (number column start : Nat) {line : List Char} (inner : '\n' ∉ line)
    {offset : Nat} (le : offset ≤ start + byteLength line) (after : List Char) :
    advance ⟨number, column⟩ (offset - start) (line ++ after) =
      ⟨number, column + (startOffsets start line).countP (· < offset)⟩ := by
  induction line generalizing column start with
  | nil =>
      rw [byteLength_nil, Nat.add_zero] at le
      rw [Nat.sub_eq_zero_of_le le]
      cases after <;> rfl
  | cons c rest ih =>
      obtain ⟨notFeed, inner⟩ := List.ne_and_not_mem_of_not_mem_cons inner
      rw [byteLength_cons] at le
      by_cases reached : offset ≤ start
      · have none : (startOffsets start (c :: rest)).countP (· < offset) = 0 := by
          refine List.countP_eq_zero.mpr fun other member => ?_
          have := le_of_mem_startOffsets member
          simp only [decide_eq_true_eq]
          omega
        rw [none, Nat.sub_eq_zero_of_le reached]
        rfl
      · obtain ⟨fewer, bytes⟩ : ∃ fewer, offset - start = fewer + 1 :=
          ⟨offset - start - 1, by omega⟩
        rw [bytes, List.cons_append, advance, if_neg notFeed.symm, startOffsets,
          List.countP_cons_of_pos (by simpa using reached), ← bytes, Nat.sub_sub,
          ih (column + 1) (start + c.utf8Size) inner (by omega), Nat.add_right_comm]
        rfl

theorem lt_line_advance (number column start : Nat) {line after : List Char}
    (inner : '\n' ∉ line) (closes : ClosesLine after) {offset : Nat}
    (past : start + byteLength line < offset)
    (le : offset ≤ start + byteLength line + byteLength after) :
    number < (advance ⟨number, column⟩ (offset - start) (line ++ after)).line := by
  induction line generalizing column start with
  | nil =>
      rw [byteLength_nil, Nat.add_zero] at past le
      obtain ⟨fewer, bytes⟩ : ∃ fewer, offset - start = fewer + 1 :=
        ⟨offset - start - 1, by omega⟩
      rcases closes with rfl | feed
      · rw [byteLength_nil] at le
        omega
      · obtain ⟨rest, rfl⟩ := List.head?_eq_some_iff.mp feed
        rw [bytes, List.nil_append, advance, if_pos rfl]
        exact le_line_advance ⟨number + 1, 1⟩ _ rest
  | cons c rest ih =>
      obtain ⟨notFeed, inner⟩ := List.ne_and_not_mem_of_not_mem_cons inner
      rw [byteLength_cons] at past le
      obtain ⟨fewer, bytes⟩ : ∃ fewer, offset - start = fewer + 1 :=
        ⟨offset - start - 1, by omega⟩
      rw [bytes, List.cons_append, advance, if_neg notFeed.symm, ← bytes, Nat.sub_sub]
      exact ih (column + 1) (start + c.utf8Size) inner (by omega) (by omega)

end LineColumn

namespace IsLine

variable {text : String} {number offset : Nat} {before line after : List Char}

theorem lineColumn_eq (isLine : IsLine text.toList number before line after)
    (le : byteLength before ≤ offset) (within : offset ≤ byteLength (before ++ line)) :
    lineColumn text offset =
      ⟨number + 1, (startOffsets (byteLength before) line).countP (· < offset) + 1⟩ := by
  rw [byteLength_append] at within
  rw [lineColumn, Int.toNat_natCast, isLine.split, List.append_assoc,
    LineColumn.advance_opens isLine.opens le, isLine.number,
    LineColumn.advance_line _ _ _ isLine.inner within, Nat.add_comm 1]

theorem lt_line_lineColumn (isLine : IsLine text.toList number before line after)
    (past : byteLength (before ++ line) < offset) (le : offset ≤ byteLength text.toList) :
    number + 1 < (lineColumn text offset).line := by
  rw [isLine.split, byteLength_append] at le
  rw [byteLength_append] at past le
  rw [lineColumn, Int.toNat_natCast, isLine.split, List.append_assoc,
    LineColumn.advance_opens isLine.opens (by omega), isLine.number]
  exact LineColumn.lt_line_advance _ _ _ isLine.inner isLine.closes past le

end IsLine

/-! The lines that a terminal shows. -/

/-- Whether a text has no line ends but line feeds and carriage returns before them or at its
end. -/
def PlainEnds (text : List Char) : Prop :=
  ∀ left c right, text = left ++ c :: right → isLineEnd c = true →
    c = '\n' ∨ c = '\r' ∧ ClosesLine right

theorem PlainEnds.tail {c : Char} {rest : List Char} (plain : PlainEnds (c :: rest)) :
    PlainEnds rest :=
  fun left d right split => plain (c :: left) d right (by rw [split]; rfl)

theorem PlainEnds.of_append {left right : List Char} (plain : PlainEnds (left ++ right)) :
    PlainEnds right := by
  intro before c after split
  exact plain (left ++ before) c after (by rw [split, List.append_assoc])

theorem PlainEnds.of_append_left {left right : List Char} (plain : PlainEnds (left ++ right)) :
    PlainEnds left := by
  intro before c after split ends
  rcases plain before c (after ++ right) (by rw [split]; simp) ends with feed | ⟨isReturn, closes⟩
  · exact .inl feed
  · refine .inr ⟨isReturn, ?_⟩
    cases after with
    | nil => exact .inl rfl
    | cons d after => exact .inr (closes.resolve_left (by simp))

theorem PlainEnds.cons {c : Char} {rest : List Char} (plain : PlainEnds rest)
    (ends : isLineEnd c = true → c = '\n' ∨ c = '\r' ∧ ClosesLine rest) :
    PlainEnds (c :: rest) := by
  rintro (_ | ⟨d, left⟩) e right split
  · cases split
    exact ends
  · exact plain left e right (List.cons.inj split).2

section

variable (current : List Char) (rest : List Char)

theorem displayLines_feed :
    displayLines current ('\n' :: rest) = current.reverse :: displayLines [] rest := by
  simp [displayLines, isLineEnd]

theorem displayLines_pair :
    displayLines current ('\r' :: '\n' :: rest) = displayLines current ('\n' :: rest) := by
  simp [displayLines, isLineEnd]

theorem displayLines_end {c : Char} (ends : isLineEnd c = true)
    (alone : c = '\r' → rest.head? ≠ some '\n') :
    displayLines current (c :: rest) = current.reverse :: displayLines [] rest := by
  rw [displayLines.eq_3, if_pos ends]
  rintro tail rfl rfl
  exact alone rfl rfl

theorem displayLines_inner {c : Char} (inner : isLineEnd c = false) :
    displayLines current (c :: rest) = displayLines (c :: current) rest := by
  rw [displayLines.eq_3, if_neg (by simp [inner])]
  rintro tail rfl
  cases inner

end

theorem displayLines_run (current rest : List Char) {run : List Char}
    (inner : ∀ c ∈ run, isLineEnd c = false) :
    displayLines current (run ++ rest) = displayLines (run.reverse ++ current) rest := by
  induction run generalizing current with
  | nil => rfl
  | cons c run ih =>
      obtain ⟨head, tail⟩ := List.forall_mem_cons.mp inner
      rw [List.cons_append, displayLines_inner _ _ head, ih _ tail]
      simp

theorem exists_displayLines_of_ne_nil {before : List Char} (opens : OpensLine before)
    (plain : PlainEnds before) (nonempty : before ≠ []) (current : List Char) :
    ∃ shown : List (List Char), shown.length = before.count '\n' ∧
      ∀ rest, displayLines current (before ++ rest) = shown ++ displayLines [] rest := by
  induction before generalizing current with
  | nil => exact absurd rfl nonempty
  | cons c before ih =>
      by_cases feed : c = '\n'
      · subst feed
        by_cases last : before = []
        · subst last
          exact ⟨[current.reverse], rfl, fun rest => displayLines_feed current rest⟩
        · obtain ⟨shown, length, lines⟩ := ih opens.tail_of_feed plain.tail last []
          refine ⟨current.reverse :: shown, ?_, fun rest => ?_⟩
          · rw [List.length_cons, length, List.count_cons_self]
          · rw [List.cons_append, displayLines_feed, lines]
            rfl
      · obtain ⟨more, later⟩ := opens.tail feed
        rw [List.count_cons_of_ne feed]
        cases ends : isLineEnd c with
        | false =>
            obtain ⟨shown, length, lines⟩ := ih later plain.tail more (c :: current)
            refine ⟨shown, length, fun rest => ?_⟩
            rw [List.cons_append, displayLines_inner _ _ ends, lines]
        | true =>
            -- A carriage return is one line end with the line feed that has to follow it.
            obtain ⟨rfl, closes⟩ := (plain [] c before rfl ends).resolve_left feed
            obtain ⟨tail, rfl⟩ := List.head?_eq_some_iff.mp (closes.resolve_left more)
            obtain ⟨shown, length, lines⟩ := ih later plain.tail more current
            refine ⟨shown, length, fun rest => ?_⟩
            rw [← lines]
            exact displayLines_pair current (tail ++ rest)

/-- Up to a line that only plain line ends lie before, there are as many shown lines as line
feeds. -/
theorem exists_displayLines {before : List Char} (opens : OpensLine before)
    (plain : PlainEnds before) :
    ∃ shown : List (List Char), shown.length = before.count '\n' ∧
      ∀ rest, displayLines [] (before ++ rest) = shown ++ displayLines [] rest := by
  by_cases first : before = []
  · subst first
    exact ⟨[], rfl, fun rest => rfl⟩
  · exact exists_displayLines_of_ne_nil opens plain first []

/-- A line with plain line ends holds none but perhaps a carriage return at its end. -/
theorem PlainEnds.exists_shown {line : List Char} (plain : PlainEnds line)
    (inner : '\n' ∉ line) :
    ∃ shown, (line = shown ∨ line = shown ++ ['\r']) ∧ ∀ c ∈ shown, isLineEnd c = false := by
  induction line with
  | nil => exact ⟨[], .inl rfl, fun _ none => nomatch none⟩
  | cons c rest ih =>
      obtain ⟨notFeed, later⟩ := List.ne_and_not_mem_of_not_mem_cons inner
      cases ends : isLineEnd c with
      | true =>
          obtain ⟨rfl, closes⟩ := (plain [] c rest rfl ends).resolve_left notFeed.symm
          rcases closes with rfl | feed
          · exact ⟨[], .inr rfl, fun _ none => nomatch none⟩
          · exact absurd (List.mem_of_mem_head? feed) later
      | false =>
          obtain ⟨shown, written, clear⟩ := ih plain.tail later
          refine ⟨c :: shown, ?_, List.forall_mem_cons.mpr ⟨ends, clear⟩⟩
          rcases written with rfl | rfl
          · exact .inl rfl
          · exact .inr rfl

theorem IsLine.exists_shown {text : List Char} {number : Nat} {before line after : List Char}
    (isLine : IsLine text number before line after) (plain : PlainEnds (before ++ line))
    (exists_shown : line ++ after ≠ []) :
    ∃ shown, (line = shown ∨ line = shown ++ ['\r']) ∧
      (displayLines [] text)[number]? = some shown := by
  obtain ⟨shown, length, lines⟩ := exists_displayLines isLine.opens plain.of_append_left
  obtain ⟨run, written, clear⟩ := plain.of_append.exists_shown isLine.inner
  refine ⟨run, written, ?_⟩
  have head : (displayLines [] (line ++ after))[0]? = some run := by
    rcases written with rfl | rfl
    · rw [displayLines_run _ _ clear, List.append_nil]
      rcases isLine.closes with rfl | feed
      · rw [List.append_nil] at exists_shown
        simp [displayLines, exists_shown]
      · obtain ⟨rest, rfl⟩ := List.head?_eq_some_iff.mp feed
        rw [displayLines_feed, List.reverse_reverse]
        rfl
    · rw [List.append_assoc, displayLines_run _ _ clear, List.append_nil]
      rcases isLine.closes with rfl | feed
      · rw [List.append_nil, displayLines_end _ _ rfl (fun _ => by simp),
          List.reverse_reverse]
        rfl
      · obtain ⟨rest, rfl⟩ := List.head?_eq_some_iff.mp feed
        rw [List.cons_append, List.nil_append, displayLines_pair, displayLines_feed,
          List.reverse_reverse]
        rfl
  rw [isLine.split, List.append_assoc, lines, ← isLine.number,
    List.getElem?_append_right (Nat.le_of_eq length), length, Nat.sub_self, head]

/-- A text that has other line ends has a first one; all before it is plain. -/
theorem exists_first_end {text : List Char} (notPlain : ¬PlainEnds text) :
    ∃ left c right, text = left ++ c :: right ∧ PlainEnds left ∧ left.getLast? ≠ some '\r' ∧
      isLineEnd c = true ∧ c ≠ '\n' ∧ (c = '\r' → ¬ClosesLine right) := by
  induction text with
  | nil => exact absurd (fun left c right split => by simp at split) notPlain
  | cons c rest ih =>
      by_cases ends : isLineEnd c = true → c = '\n' ∨ c = '\r' ∧ ClosesLine rest
      · obtain ⟨left, d, right, rfl, plain, last, other⟩ :=
          ih fun plain => notPlain (plain.cons ends)
        -- Only a line feed may follow a carriage return, and what comes first here is none.
        have follows : c = '\r' → left ≠ [] ∧ ClosesLine left := by
          rintro rfl
          obtain ⟨-, closes⟩ := (ends rfl).resolve_left (by decide)
          cases left with
          | nil =>
              rcases closes with none | feed
              · cases none
              · exact absurd (Option.some.inj feed) other.2.1
          | cons e left =>
              exact ⟨List.cons_ne_nil e left, .inr (closes.resolve_left (by simp))⟩
        refine ⟨c :: left, d, right, rfl, plain.cons fun isEnd => ?_, ?_, other⟩
        · exact (ends isEnd).imp_right fun isReturn => ⟨isReturn.1, (follows isReturn.1).2⟩
        · cases left with
          | nil => exact fun same => (follows (Option.some.inj same)).1 rfl
          | cons e left => exact last
      · rw [Classical.not_imp, not_or] at ends
        obtain ⟨isEnd, notFeed, other⟩ := ends
        exact ⟨[], c, rest, rfl, fun left d right split => by simp at split, by simp, isEnd,
          notFeed, fun isReturn closes => other ⟨isReturn, closes⟩⟩

end Text

open Text

namespace ReportStyle

/-- Whether a report shows a range of the source that starts in a line: under the number of that
line and the column that the range starts in, the line itself, up to a carriage return at its end,
and if the range ends in it too, a mark under each of its characters or a single one. -/
def ShowsLine (style : ReportStyle) (ink : Ink) (source : String) (range : ByteRange)
    (message : String) (number : Nat) (before line : List Char) : Prop :=
  let starts := startOffsets (byteLength before) line
  let column := starts.countP (· < range.start)
  let length := starts.countP fun start => range.start ≤ start ∧ start < range.stop
  ∃ shown, (line = shown ∨ line = shown ++ ['\r']) ∧
    style.place ink source ⟨range, message⟩ =
      style.line "-->" (" " ++ style.filename ++ ":" ++ toString (number + 1) ++ ":" ++
          toString (column + 1)) ::
        style.line bar "" ::
        style.line (padLeft 4 (toString (number + 1)) ++ " |") (" " ++ String.ofList shown) ::
        (if range.stop ≤ byteLength (before ++ line) then
            [style.line bar (" " ++ String.ofList (List.replicate column ' ') ++
              style.paint ink (String.ofList (List.replicate (max 1 length) '^')))]
          else []) ++ style.remark ink message

/-- Whether a range starts in a line of the source, or at its end, and ends in the source. -/
structure StartsInLine (source : String) (range : ByteRange) (number : Nat)
    (before line after : List Char) : Prop where
  isLine : IsLine source.toList number before line after
  le_start : byteLength before ≤ range.start
  start_le : range.start ≤ byteLength (before ++ line)
  stop_le : range.stop ≤ byteLength source.toList

variable {style : ReportStyle} {ink : Ink} {source message : String} {range : ByteRange}
  {number : Nat} {before line after : List Char}

/-- The lines under a shown line: marks if the range ends in it. -/
def marksUnder (style : ReportStyle) (ink : Ink) (range : ByteRange) (before line : List Char) :
    List String :=
  let starts := startOffsets (byteLength before) line
  let column := starts.countP (· < range.start)
  let length := starts.countP fun start => range.start ≤ start ∧ start < range.stop
  if range.stop ≤ byteLength (before ++ line) then
    [style.line bar (" " ++ String.ofList (List.replicate column ' ') ++
      style.paint ink (String.ofList (List.replicate (max 1 length) '^')))]
  else []

theorem StartsInLine.excerpt_eq (starts : StartsInLine source range number before line after) :
    style.excerpt ink (splitLines source) (lineColumn source range.start)
        (lineColumn source range.stop) =
      match (displayLines [] source.toList)[number]? with
      | none => []
      | some shown =>
          style.line (padLeft 4 (toString (number + 1)) ++ " |") (" " ++ String.ofList shown) ::
            style.marksUnder ink range before line := by
  have first := starts.isLine.lineColumn_eq starts.le_start starts.start_le
  have ordered := range.ordered
  have shown : (splitLines source)[number]? =
      ((displayLines [] source.toList)[number]?).map String.ofList :=
    List.getElem?_map
  unfold excerpt marksUnder
  rw [first]
  simp only [Nat.add_sub_cancel, shown]
  cases (displayLines [] source.toList)[number]? with
  | none => rfl
  | some text =>
      simp only [Option.map_some]
      by_cases ends : range.stop ≤ byteLength (before ++ line)
      · have last := starts.isLine.lineColumn_eq (Nat.le_trans starts.le_start ordered) ends
        rw [last, if_pos rfl, if_pos ends, marks,
          countP_startOffsets _ ordered, Nat.add_sub_add_right, Nat.add_sub_cancel_left]
      · have last := starts.isLine.lt_line_lineColumn (Nat.lt_of_not_le ends) starts.stop_le
        rw [if_neg (Nat.ne_of_lt last), if_neg ends]

theorem StartsInLine.place_eq (starts : StartsInLine source range number before line after) :
    style.place ink source ⟨range, message⟩ =
      style.line "-->" (" " ++ style.filename ++ ":" ++ toString (number + 1) ++ ":" ++
          toString ((startOffsets (byteLength before) line).countP (· < range.start) + 1)) ::
        style.line bar "" ::
        style.excerpt ink (splitLines source) (lineColumn source range.start)
          (lineColumn source range.stop) ++ style.remark ink message := by
  have first := starts.isLine.lineColumn_eq starts.le_start starts.start_le
  unfold place
  simp only [first]

/-- The line that a range starts in is shown if the source has that line, as a terminal divides
it, under its number. -/
theorem StartsInLine.shows_iff (starts : StartsInLine source range number before line after) :
    style.ShowsLine ink source range message number before line ↔
      ∃ shown, (line = shown ∨ line = shown ++ ['\r']) ∧
        (displayLines [] source.toList)[number]? = some shown := by
  unfold ShowsLine
  rw [starts.place_eq, starts.excerpt_eq]
  refine exists_congr fun shown => and_congr_right fun _ => ?_
  change _ = _ :: _ :: _ :: style.marksUnder ink range before line ++ _ ↔ _
  cases (displayLines [] source.toList)[number]? with
  | none =>
      refine iff_of_false (fun same => ?_) nofun
      have lengths := congrArg List.length same
      simp only [List.length_append, List.length_cons, List.length_nil] at lengths
      omega
  | some text =>
      refine ⟨fun same => ?_, ?_⟩
      · have third := (List.cons.inj (List.cons.inj (List.cons.inj same).2).2).1
        have written := (String.append_right_inj _).mp ((String.append_right_inj _).mp third)
        rw [String.ofList_injective written]
      · rintro ⟨⟩
        rfl

end ReportStyle

open ReportStyle

/-- Whether a text has no line ends but line feeds and carriage returns before them or at its end,
and its last line is not empty. -/
def PlainLines (text : List Char) : Prop :=
  PlainEnds text ∧ ¬OpensLine text

variable {style : ReportStyle} {ink : Ink} {source message : String} {number : Nat}
  {before after : List Char}

theorem exists_startsInLine {source : String} {range : ByteRange}
    (within : range.stop ≤ byteLength source.toList) :
    ∃ number before line after, StartsInLine source range number before line after := by
  obtain ⟨tail, split⟩ := takeWhole_prefix range.start source.toList
  have bytes := byteLength_takeWhole_le range.start source.toList
  obtain ⟨before, left, right, after, head, rfl, isLine⟩ :=
    exists_line (takeWhole range.start source.toList) tail
  rw [split] at isLine
  refine ⟨_, before, left ++ right, after, isLine, ?_, ?_, within⟩
  · rw [head, byteLength_append] at bytes
    omega
  · -- Otherwise the line feed after the line would be among the characters before the start.
    refine Nat.le_of_not_lt fun past => ?_
    have ordered := range.ordered
    rw [isLine.split, byteLength_append] at within
    rcases isLine.closes with rfl | feed
    · rw [byteLength_nil] at within
      omega
    · obtain ⟨rest, rfl⟩ := List.head?_eq_some_iff.mp feed
      have longer : before ++ (left ++ right) ++ ['\n'] <+: source.toList :=
        ⟨rest, by rw [isLine.split]; simp⟩
      have fits : byteLength (before ++ (left ++ right) ++ ['\n']) ≤ range.start := by
        rw [byteLength_append]
        exact past
      have taken := (prefix_takeWhole longer fits).length_le
      rw [head] at taken
      simp only [List.length_append, List.length_cons] at taken
      omega

theorem startsInLine_of_isLine {left right : List Char}
    (isLine : IsLine source.toList number before (left ++ right) after) :
    StartsInLine source ⟨byteLength (before ++ left), byteLength (before ++ left), Nat.le_refl _⟩
      number before (left ++ right) after := by
  refine ⟨isLine, ?_, ?_, ?_⟩
  · rw [byteLength_append]
    exact Nat.le_add_right _ _
  · rw [← List.append_assoc, byteLength_append _ right]
    exact Nat.le_add_right _ _
  · rw [isLine.split, ← List.append_assoc, List.append_assoc, byteLength_append _ (right ++ after)]
    exact Nat.le_add_right _ _

/-- If every range is shown in its line, the source has no other line ends: of the line with the
first of them, a report shows only what is before it. -/
theorem PlainEnds.of_shows
    (shows : ∀ range number before line after,
      StartsInLine source range number before line after →
        style.ShowsLine ink source range message number before line) :
    PlainEnds source.toList := by
  refine Classical.byContradiction fun notPlain => ?_
  obtain ⟨left, c, right, split, plain, last, isEnd, notFeed, alone⟩ := exists_first_end notPlain
  obtain ⟨before, run, more, after, rfl, tail, isLine⟩ := exists_line left (c :: right)
  obtain ⟨rest, rfl⟩ : ∃ rest, more = c :: rest := by
    cases more with
    | cons d rest => exact ⟨rest, by rw [(List.cons.inj tail).1]⟩
    | nil =>
        rw [List.nil_append] at tail
        subst tail
        rcases isLine.closes with none | feed
        · cases none
        · exact absurd (Option.some.inj feed) notFeed
  obtain rfl : right = rest ++ after := (List.cons.inj tail).2
  rw [← split] at isLine
  -- The empty range at the first other line end: a report shows its line up to there only.
  have starts := startsInLine_of_isLine isLine
  obtain ⟨shown, written, found⟩ := starts.shows_iff.mp (shows _ _ _ _ _ starts)
  obtain ⟨lines, length, displayed⟩ := exists_displayLines isLine.opens plain.of_append_left
  have clear : ∀ d ∈ run, isLineEnd d = false := by
    obtain ⟨clean, rfl | rfl, clear⟩ :=
      plain.of_append.exists_shown fun member => isLine.inner (List.mem_append_left _ member)
    · exact clear
    · exact absurd (by simp) last
  have alone' : c = '\r' → (rest ++ after).head? ≠ some '\n' :=
    fun isReturn feed => alone isReturn (.inr feed)
  rw [split, List.append_assoc, displayed, displayLines_run _ _ clear, displayLines_end _ _ isEnd
    alone', ← isLine.number, ← length, List.getElem?_append_right (Nat.le_refl _), Nat.sub_self,
    List.append_nil, List.reverse_reverse] at found
  obtain rfl : run = shown := Option.some.inj found
  rcases written with same | same
  · simp at same
  · obtain ⟨rfl, rfl⟩ := List.cons.inj (List.append_cancel_left same)
    exact alone rfl isLine.closes

/-- If every range is shown in its line, the last line of the source is not empty. -/
theorem not_opensLine_of_shows
    (shows : ∀ range number before line after,
      StartsInLine source range number before line after →
        style.ShowsLine ink source range message number before line) :
    ¬OpensLine source.toList := by
  intro opens
  have isLine : IsLine source.toList _ source.toList ([] ++ []) [] :=
    ⟨by simp, opens, rfl, List.not_mem_nil, .inl rfl⟩
  have starts := startsInLine_of_isLine isLine
  obtain ⟨shown, -, found⟩ := starts.shows_iff.mp (shows _ _ _ _ _ starts)
  obtain ⟨lines, length, displayed⟩ := exists_displayLines opens (PlainEnds.of_shows shows)
  have whole := displayed []
  rw [List.append_nil] at whole
  rw [whole, ← length, List.getElem?_append_right (Nat.le_refl _), Nat.sub_self] at found
  cases found

/-- The report of a diagnostic shows each of its places. Every range of a source starts in a
line, which is shown with its number if the source has no other line ends up to the end of the
line and it is not the empty one at the end of the source. So every range is shown in its line if
and only if the source has plain lines. -/
theorem excerpts_show_lines (style : ReportStyle) (source : String) (diagnostic : Diagnostic)
    (ink : Ink) (message : String) :
    (∀ label ∈ diagnostic.labels,
      style.place diagnostic.severity.ink source label <:+:
        diagnostic.reportLines style source) ∧
    (∀ range : ByteRange, range.stop ≤ byteLength source.toList →
      ∃ number before line after, StartsInLine source range number before line after) ∧
    (∀ range number before line after, StartsInLine source range number before line after →
      PlainEnds (before ++ line) → line ++ after ≠ [] →
        style.ShowsLine ink source range message number before line) ∧
    ((∀ range number before line after, StartsInLine source range number before line after →
        style.ShowsLine ink source range message number before line) ↔
      PlainLines source.toList) := by
  have shown : ∀ range number before line after,
      StartsInLine source range number before line after → PlainEnds (before ++ line) →
        line ++ after ≠ [] → style.ShowsLine ink source range message number before line :=
    fun range number before line after starts plain nonempty =>
      starts.shows_iff.mpr (starts.isLine.exists_shown plain nonempty)
  refine ⟨?_, fun range within => exists_startsInLine within, shown, ?_, ?_⟩
  · intro label member
    have placed : style.place diagnostic.severity.ink source label <:+:
        diagnostic.labels.flatMap (style.place diagnostic.severity.ink source) :=
      List.infix_of_mem_flatten (List.mem_map_of_mem member)
    exact placed.trans ((List.suffix_cons _ _).isInfix.trans List.infix_append_left)
  · exact fun shows => ⟨PlainEnds.of_shows shows, not_opensLine_of_shows shows⟩
  · rintro ⟨plain, closed⟩ range number before line after starts
    have split := starts.isLine.split
    refine shown range number before line after starts ?_ fun empty => ?_
    · rw [split] at plain
      exact plain.of_append_left
    · rw [split, List.append_assoc, empty, List.append_nil] at closed
      exact closed starts.isLine.opens

/-- The second line of a text of two lines, with a mark under its only letter. -/
theorem excerpts_show_lines_of_pair :
    (⟨some ⟨3, 4, by decide⟩, ""⟩ : Label) ∈
        (Diagnostic.error "E203" "missing subscript" (some ⟨3, 4, by decide⟩)).labels ∧
      4 ≤ byteLength "a+\n_".toList ∧
      StartsInLine "a+\n_" ⟨3, 4, by decide⟩ 1 ['a', '+', '\n'] ['_'] [] ∧
      PlainLines "a+\n_".toList ∧
      ReportStyle.ShowsLine {} .boldRed "a+\n_" ⟨3, 4, by decide⟩ "" 1 ['a', '+', '\n'] ['_'] := by
  have plain : PlainEnds "a+\n_".toList :=
    .cons (.cons (.cons (.cons (fun left c right split => by simp at split) nofun)
      fun _ => .inl rfl) nofun) nofun
  have plain_lines : PlainLines "a+\n_".toList := ⟨plain, by simp [OpensLine]⟩
  have starts : StartsInLine "a+\n_" ⟨3, 4, by decide⟩ 1 ['a', '+', '\n'] ['_'] [] :=
    ⟨⟨rfl, .inr rfl, rfl, by decide, .inl rfl⟩, by decide, by decide, by decide⟩
  obtain ⟨-, -, -, all⟩ := excerpts_show_lines {} "a+\n_"
    (Diagnostic.error "E203" "missing subscript" (some ⟨3, 4, by decide⟩)) .boldRed ""
  exact ⟨by decide, by decide, starts, plain_lines, all.mpr plain_lines _ _ _ _ _ starts⟩

/-- A form feed is a line end of the excerpt, so that the second line is shown as the empty text
between the form feed and the line feed. -/
theorem excerpts_not_lines_of_form_feed :
    StartsInLine "a\x0c\n_" ⟨3, 4, by decide⟩ 1 ['a', '\x0c', '\n'] ['_'] [] ∧
      ∀ (style : ReportStyle) ink message, ¬style.ShowsLine ink "a\x0c\n_" ⟨3, 4, by decide⟩
        message 1 ['a', '\x0c', '\n'] ['_'] := by
  have starts : StartsInLine "a\x0c\n_" ⟨3, 4, by decide⟩ 1 ['a', '\x0c', '\n'] ['_'] [] :=
    ⟨⟨rfl, .inr rfl, rfl, by decide, .inl rfl⟩, by decide, by decide, by decide⟩
  refine ⟨starts, fun style ink message shows => ?_⟩
  obtain ⟨shown, written, found⟩ := starts.shows_iff.mp shows
  obtain rfl : [] = shown := Option.some.inj found
  rcases written with same | same <;> cases same

end EquationMap
