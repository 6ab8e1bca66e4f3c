import EquationMap.Proofs.Tree.Containment

namespace EquationMap

open Grammar

def Node.isNamed : Node → Bool
  | named _ _ _ => true
  | _ => false

/-- Arguments with commas and semicolons between them, in the order of the text. A semicolon
ends a row. -/
inductive RowsWritten : List (List Node) → List Token → List Token → Prop
  | start {rest : List Token} : RowsWritten [[]] rest rest
  | argument {earlier : List (List Node)} {row : List Node} {node : Node}
      {tokens middle rest : List Token} (before : RowsWritten (earlier ++ [row]) tokens middle)
      (written : Written (.one .argument node) middle rest) :
      RowsWritten (earlier ++ [row ++ [node]]) tokens rest
  | comma {rows : List (List Node)} {comma : Token} {tokens rest : List Token}
      (before : RowsWritten rows tokens (comma :: rest)) (kind : comma.kind = .comma) :
      RowsWritten rows tokens rest
  | semicolon {rows : List (List Node)} {mark : Token} {tokens rest : List Token}
      (before : RowsWritten rows tokens (mark :: rest)) (kind : mark.kind = .semicolon) :
      RowsWritten (rows ++ [[]]) tokens rest

/-- The arguments of a call as the tree has them: those with names last, and the others of each
row in an array if there is a semicolon. -/
def regrouped (rows : List (List Node)) : List Node :=
  let unnamed := rows.map fun row => row.filter fun node => !node.isNamed
  let arrays := if rows.length = 1 then unnamed.flatten else unnamed.filterMap ArgumentRows.arrayOf?
  arrays ++ rows.flatten.filter Node.isNamed

namespace Grammar.ArgumentRows

/-- What has been found of some rows and the one after them. -/
def ofRows (earlier : List (List Node)) (row : List Node) : ArgumentRows where
  row := row.filter fun node => !node.isNamed
  rows := earlier.map fun row => row.filter fun node => !node.isNamed
  named := (earlier ++ [row]).flatten.filter Node.isNamed
  hasRows := !earlier.isEmpty

theorem add_ofRows (earlier : List (List Node)) (row : List Node) (node : Node) :
    (ofRows earlier row).add node = ofRows earlier (row ++ [node]) := by
  cases node <;> simp [add, ofRows, List.filter_cons, Node.isNamed]

theorem endRow_ofRows (earlier : List (List Node)) (row : List Node) :
    (ofRows earlier row).endRow = ofRows (earlier ++ [row]) [] := by
  simp [endRow, ofRows]

theorem items_ofRows (earlier : List (List Node)) (row : List Node) :
    (ofRows earlier row).items = regrouped (earlier ++ [row]) := by
  unfold items ofRows regrouped
  cases earlier <;> simp

end Grammar.ArgumentRows

variable {all tokens rest : List Token}

theorem Written.exists_rows {writing : Writing} (written : Written writing tokens rest)
    {found : ArgumentRows} (same : writing = .rows found) :
    ∃ earlier row, RowsWritten (earlier ++ [row]) tokens rest ∧ found = .ofRows earlier row := by
  induction written generalizing found with
  | noRows =>
      cases same
      exact ⟨[], [], .start, rfl⟩
  | argument before written ih =>
      cases same
      obtain ⟨earlier, row, rows_written, rfl⟩ := ih rfl
      exact ⟨earlier, _, .argument rows_written written, ArgumentRows.add_ofRows _ _ _⟩
  | rowComma before kind ih =>
      cases same
      obtain ⟨earlier, row, rows_written, rfl⟩ := ih rfl
      exact ⟨earlier, row, .comma rows_written kind, rfl⟩
  | endRow before kind ih =>
      cases same
      obtain ⟨earlier, row, rows_written, rfl⟩ := ih rfl
      exact ⟨_, [], .semicolon rows_written kind, ArgumentRows.endRow_ofRows _ _⟩
  | _ => cases same

theorem Node.sizeOfList_append (left right : List Node) :
    sizeOfList (left ++ right) = sizeOfList left + sizeOfList right := by
  induction left with
  | nil => simp [sizeOfList]
  | cons node rest ih => rw [List.cons_append, sizeOfList, sizeOfList, ih, Nat.add_assoc]

theorem Node.sizeOfList_filter (nodes : List Node) :
    sizeOfList (nodes.filter fun node => !node.isNamed) + sizeOfList (nodes.filter Node.isNamed) =
      sizeOfList nodes := by
  induction nodes with
  | nil => rfl
  | cons node rest ih =>
      cases named : node.isNamed <;> simp [named, sizeOfList] <;> omega

theorem Grammar.ArgumentRows.sizeOfList_arrays (rows : List (List Node)) :
    Node.sizeOfList (rows.filterMap arrayOf?) =
      Node.sizeOfList rows.flatten + (rows.filterMap arrayOf?).length := by
  induction rows with
  | nil => rfl
  | cons row rest ih =>
      rw [List.flatten_cons, Node.sizeOfList_append]
      cases row with
      | nil =>
          rw [List.filterMap_cons_none rfl, ih]
          simp [Node.sizeOfList]
      | cons first others =>
          rw [List.filterMap_cons, arrayOf?]
          dsimp only
          rw [Node.sizeOfList, ih, List.length_cons, Node.size]
          omega

theorem unnamed_eq_nil {rows : List (List Node)}
    (named : ∀ node ∈ rows.flatten, node.isNamed = true) {row : List Node} (member : row ∈ rows) :
    (row.filter fun node => !node.isNamed) = [] := by
  refine List.filter_eq_nil_iff.mpr fun node inRow => ?_
  simp [named node (List.mem_flatten.mpr ⟨row, member, inRow⟩)]

theorem regrouped_named {rows : List (List Node)}
    (named : ∀ node ∈ rows.flatten, node.isNamed = true) : regrouped rows = rows.flatten := by
  have none : ∀ row ∈ rows.map fun row => row.filter fun node => !node.isNamed, row = [] := by
    intro row member
    obtain ⟨original, isRow, rfl⟩ := List.mem_map.mp member
    exact unnamed_eq_nil named isRow
  unfold regrouped
  dsimp only
  rw [List.filter_eq_self.mpr named]
  split
  · rw [List.flatten_eq_nil_iff.mpr none, List.nil_append]
  · rw [List.filterMap_eq_nil_iff.mpr fun row member => by rw [none row member]; rfl,
      List.nil_append]

theorem regrouped_single (row : List Node) :
    regrouped [row] = (row.filter fun node => !node.isNamed) ++ row.filter Node.isNamed := by
  simp [regrouped]

/-- With a semicolon the tree has as many nodes more than the text has arguments as there are
arrays in it. -/
theorem unnamed_of_regrouped {rows : List (List Node)} (several : rows.length ≠ 1)
    (same : regrouped rows = rows.flatten) : ∀ node ∈ rows.flatten, node.isNamed = true := by
  unfold regrouped at same
  dsimp only at same
  rw [if_neg several] at same
  have size := congrArg Node.sizeOfList same
  rw [Node.sizeOfList_append, Grammar.ArgumentRows.sizeOfList_arrays, ← List.filter_flatten]
    at size
  have split := Node.sizeOfList_filter rows.flatten
  have none : (rows.map fun row => row.filter fun node => !node.isNamed).filterMap
      ArgumentRows.arrayOf? = [] :=
    List.eq_nil_of_length_eq_zero (by omega)
  rw [none, List.nil_append] at same
  intro node member
  rw [← same] at member
  exact (List.mem_filter.mp member).2

/-- Whether the arguments with names come last, and there are others in a single row only. -/
def NamedLast (rows : List (List Node)) : Prop :=
  ∃ before after, rows.flatten = before ++ after ∧
    (∀ node ∈ before, node.isNamed = false ∧ rows.length = 1) ∧
    ∀ node ∈ after, node.isNamed = true

theorem regrouped_eq_flatten_iff (rows : List (List Node)) :
    regrouped rows = rows.flatten ↔ NamedLast rows := by
  constructor
  · intro same
    by_cases single : rows.length = 1
    · obtain ⟨row, rfl⟩ := List.length_eq_one_iff.mp single
      refine ⟨_, _, same.symm.trans (regrouped_single row), ?_, ?_⟩
      · intro node member
        exact ⟨by simpa using (List.mem_filter.mp member).2, rfl⟩
      · intro node member
        exact (List.mem_filter.mp member).2
    · exact ⟨[], rows.flatten, rfl, List.forall_mem_nil _,
        unnamed_of_regrouped single same⟩
  · rintro ⟨before, after, split, unnamed, named⟩
    cases before with
    | nil => exact regrouped_named (by rw [split]; exact named)
    | cons first others =>
        obtain ⟨row, rfl⟩ := List.length_eq_one_iff.mp (unnamed first List.mem_cons_self).2
        rw [List.flatten_singleton] at split
        have left : ∀ node ∈ first :: others, (!node.isNamed) = true := fun node member => by
          rw [(unnamed node member).1, Bool.not_false]
        have right : ∀ node ∈ after, ¬(!node.isNamed) = true := fun node member => by
          simp [named node member]
        have left_none : ∀ node ∈ first :: others, ¬node.isNamed = true := fun node member => by
          simp [(unnamed node member).1]
        rw [regrouped_single, split, List.filter_append, List.filter_append,
          List.filter_eq_self.mpr left, List.filter_eq_nil_iff.mpr right,
          List.filter_eq_nil_iff.mpr left_none, List.filter_eq_self.mpr named, List.append_nil,
          List.nil_append, List.flatten_singleton]

theorem exists_array_of_regrouped {rows : List (List Node)} (several : rows.length ≠ 1)
    {node : Node} (member : node ∈ regrouped rows) (unnamed : node.isNamed = false) :
    ∃ items place, node = .array items place := by
  unfold regrouped at member
  dsimp only at member
  rw [if_neg several] at member
  rcases List.mem_append.mp member with isArray | isNamed
  · obtain ⟨row, -, made⟩ := List.mem_filterMap.mp isArray
    cases row with
    | nil => cases made
    | cons first others =>
        cases made
        exact ⟨_, _, rfl⟩
  · rw [(List.mem_filter.mp isNamed).2] at unnamed
    cases unnamed

/-- A name with rows of arguments in parentheses, among the tokens of a text. -/
inductive CallWritten (all : List Token) : Token → List (List Node) → Prop
  | call {name opening closing : Token} {rows : List (List Node)} {middle rest : List Token}
      (within : name :: opening :: middle <:+ all) (name_kind : name.kind = .ident)
      (opening_kind : opening.kind = .lparen) (written : RowsWritten rows middle (closing :: rest))
      (closing_kind : closing.kind = .rparen) : CallWritten all name rows

/-- Whether a part is no call in mathematics, or has the arguments of one that is written. -/
def TreePart.CallWritten (all : List Token) : TreePart → Prop
  | .node (.call (.mathIdent name place) args _ _) =>
      ∃ token rows, EquationMap.CallWritten all token rows ∧ token.value = name ∧
        token.range = place.range ∧ args = regrouped rows
  | _ => True

theorem TreePart.throughout_of_parts {holds : TreePart → Prop} {part : TreePart}
    (here : holds part) (below : ∀ direct ∈ part.parts, direct.Throughout holds) :
    part.Throughout holds := by
  intro inner member
  rw [part.subtree_eq] at member
  rcases List.mem_cons.mp member with rfl | deeper
  · exact here
  · obtain ⟨direct, isDirect, inside⟩ := List.mem_flatMap.mp deeper
    exact below direct isDirect inner inside

/-- Whether all calls in mathematics in a node are written in a text. -/
def Node.CallsWritten (all : List Token) (node : Node) : Prop :=
  (TreePart.node node).Throughout (TreePart.CallWritten all)

def Writing.CallsWritten (all : List Token) : Writing → Prop
  | .one _ node => node.CallsWritten all
  | .many _ nodes => ∀ node ∈ nodes, node.CallsWritten all
  | .rows found => ∀ node ∈ found.row ++ found.rows.flatten ++ found.named,
      node.CallsWritten all
  | .scripts found => ∀ node ∈ found.bottom.toList ++ found.top.toList, node.CallsWritten all

namespace Node

theorem callsWritten_of_nodes {node : Node} (children : List Node)
    (parts : node.parts = children.map .node) (here : (TreePart.node node).CallWritten all)
    (below : ∀ child ∈ children, child.CallsWritten all) : node.CallsWritten all := by
  refine TreePart.throughout_of_parts here ?_
  change ∀ direct ∈ node.parts, _
  rw [parts]
  exact List.forall_mem_map.mpr below

theorem callsWritten_of_no_parts {node : Node} (parts : node.parts = [])
    (here : (TreePart.node node).CallWritten all) : node.CallsWritten all :=
  callsWritten_of_nodes [] parts here (List.forall_mem_nil _)

theorem callsWritten_call {callee : Node} {args : List Node} {argsPlace place : Place}
    (here : (TreePart.node (call callee args argsPlace place)).CallWritten all)
    (callee_written : callee.CallsWritten all) (below : ∀ arg ∈ args, arg.CallsWritten all) :
    (call callee args argsPlace place).CallsWritten all := by
  refine TreePart.throughout_of_parts here ?_
  refine List.forall_mem_cons.mpr ⟨callee_written, List.forall_mem_singleton.mpr ?_⟩
  exact TreePart.throughout_of_parts trivial (List.forall_mem_map.mpr below)

end Node

theorem Leaf.callsWritten {role : Role} {token : Token} {node : Node}
    (leaf : Leaf role token node) : node.CallsWritten all := by
  cases leaf <;> exact Node.callsWritten_of_no_parts rfl trivial

theorem Grammar.ArgumentRows.callsWritten_arrayOf {row : List Node} {array : Node}
    (made : arrayOf? row = some array) (below : ∀ node ∈ row, node.CallsWritten all) :
    array.CallsWritten all := by
  cases row with
  | nil => cases made
  | cons first others =>
      cases made
      exact Node.callsWritten_of_nodes _ rfl trivial below

theorem Grammar.ArgumentRows.callsWritten_items {found : ArgumentRows}
    (below : ∀ node ∈ found.row ++ found.rows.flatten ++ found.named, node.CallsWritten all) :
    ∀ node ∈ found.items, node.CallsWritten all := by
  simp only [List.forall_mem_append] at below
  obtain ⟨⟨row, rows⟩, named⟩ := below
  unfold items
  split
  · refine List.forall_mem_append.mpr ⟨fun node member => ?_, named⟩
    obtain ⟨nodes, among, made⟩ := List.mem_filterMap.mp member
    refine callsWritten_arrayOf made ?_
    rcases List.mem_append.mp among with earlier | last
    · exact fun node inRow => rows node (List.mem_flatten.mpr ⟨nodes, earlier, inRow⟩)
    · rw [List.mem_singleton.mp last]
      exact row
  · exact List.forall_mem_append.mpr ⟨row, named⟩

theorem Grammar.ArgumentRows.callsWritten_add {found : ArgumentRows} {node : Node}
    (below : ∀ node ∈ found.row ++ found.rows.flatten ++ found.named, node.CallsWritten all)
    (written : node.CallsWritten all) :
    ∀ other ∈ (found.add node).row ++ (found.add node).rows.flatten ++ (found.add node).named,
      other.CallsWritten all := by
  simp only [List.forall_mem_append] at below
  obtain ⟨⟨row, rows⟩, named⟩ := below
  have last := List.forall_mem_singleton.mpr written
  unfold add
  split
  · exact List.forall_mem_append.mpr
      ⟨List.forall_mem_append.mpr ⟨row, rows⟩, List.forall_mem_append.mpr ⟨named, last⟩⟩
  · exact List.forall_mem_append.mpr
      ⟨List.forall_mem_append.mpr ⟨List.forall_mem_append.mpr ⟨row, last⟩, rows⟩, named⟩

theorem Grammar.ArgumentRows.callsWritten_endRow {found : ArgumentRows}
    (below : ∀ node ∈ found.row ++ found.rows.flatten ++ found.named, node.CallsWritten all) :
    ∀ node ∈ found.endRow.row ++ found.endRow.rows.flatten ++ found.endRow.named,
      node.CallsWritten all := by
  simp only [List.forall_mem_append] at below
  obtain ⟨⟨row, rows⟩, named⟩ := below
  unfold endRow
  rw [List.flatten_append, List.flatten_singleton]
  refine List.forall_mem_append.mpr ⟨List.forall_mem_append.mpr ⟨List.forall_mem_nil _, ?_⟩,
    named⟩
  exact List.forall_mem_append.mpr ⟨rows, row⟩

theorem Grammar.Scripts.callsWritten_put {found : Scripts} (side : ScriptSide) {node : Node}
    (below : ∀ node ∈ found.bottom.toList ++ found.top.toList, node.CallsWritten all)
    (written : node.CallsWritten all) :
    ∀ other ∈ (found.put side node).bottom.toList ++ (found.put side node).top.toList,
      other.CallsWritten all := by
  rw [List.forall_mem_append] at below
  have only := List.forall_mem_singleton.mpr written
  cases side with
  | below => exact List.forall_mem_append.mpr ⟨only, below.2⟩
  | above => exact List.forall_mem_append.mpr ⟨below.1, only⟩

theorem Written.ne_mathIdent {callee : Node} (written : Written (.one .operand callee) tokens rest)
    (name : String) (place : Place) : callee ≠ .mathIdent name place := by
  rintro rfl
  cases written with
  | leaf leaf => cases leaf
  | blockOperand written =>
      cases written with
      | leaf leaf => cases leaf

theorem TreePart.callWritten_of_operand {callee : Node} {args : List Node}
    {argsPlace place : Place} (written : Written (.one .operand callee) tokens rest) :
    (TreePart.node (.call callee args argsPlace place)).CallWritten all := by
  have inCode := written.ne_mathIdent
  cases callee with
  | mathIdent name place => exact (inCode name place rfl).elim
  | _ => trivial

theorem Written.callsWritten {writing : Writing} (written : Written writing tokens rest)
    (within : tokens <:+ all) : writing.CallsWritten all := by
  have inside {token : Token} {tokens : List Token} (within : token :: tokens <:+ all) :
      tokens <:+ all :=
    (List.suffix_cons token tokens).trans within
  have one {node expr : Node} (parts : node.parts = [.node expr])
      (here : (TreePart.node node).CallWritten all) (written : expr.CallsWritten all) :
      node.CallsWritten all :=
    Node.callsWritten_of_nodes [expr] parts here (List.forall_mem_singleton.mpr written)
  have two {node left right : Node} (parts : node.parts = [.node left, .node right])
      (here : (TreePart.node node).CallWritten all) (left_written : left.CallsWritten all)
      (right_written : right.CallsWritten all) : node.CallsWritten all := by
    refine Node.callsWritten_of_nodes [left, right] parts here ?_
    exact List.forall_mem_cons.mpr ⟨left_written, List.forall_mem_singleton.mpr right_written⟩
  induction written with
  | leaf leaf => exact leaf.callsWritten
  | primes marks => exact Node.callsWritten_of_no_parts rfl trivial
  | @attach base marks found tokens afterBase afterPrimes rest base_written marks_written
      scripts_written proper base_ih scripts_ih =>
      have scripts : ∀ node ∈ found.bottom.toList ++ found.top.toList, node.CallsWritten all :=
        scripts_ih (marks_written.suffix.trans (base_written.suffix.trans within))
      refine Node.callsWritten_of_nodes (base :: (found.bottom.toList ++ found.top.toList ++
        marks.toList.map .primes)) (by simp [Node.parts]) trivial ?_
      refine List.forall_mem_cons.mpr ⟨base_ih within, ?_⟩
      refine List.forall_mem_append.mpr ⟨scripts, List.forall_mem_map.mpr fun marks _ => ?_⟩
      exact Node.callsWritten_of_no_parts rfl trivial
  | frac num_written kind denom_written num_ih denom_ih =>
      exact two rfl trivial (num_ih within) (denom_ih (inside (num_written.suffix.trans within)))
  | root kind written ih => exact one rfl trivial (ih (inside within))
  | @delimited body opening closing middle rest kinds written ih =>
      refine TreePart.throughout_of_parts trivial ?_
      refine List.forall_mem_cons.mpr ⟨Node.callsWritten_of_no_parts rfl trivial, ?_⟩
      refine List.forall_mem_cons.mpr ⟨?_, List.forall_mem_singleton.mpr ?_⟩
      · exact Node.callsWritten_of_nodes body rfl trivial (ih (inside within))
      · exact Node.callsWritten_of_no_parts rfl trivial
  | @mathCall name opening closing found middle rest name_kind opening_kind written closing_kind
      ih =>
      -- the one call of a name of mathematics; all others are of operands of code
      obtain ⟨earlier, row, rows_written, rfl⟩ := written.exists_rows rfl
      refine Node.callsWritten_call ?_ (Node.callsWritten_of_no_parts rfl trivial)
        (ArgumentRows.callsWritten_items (ih (inside (inside within))))
      exact ⟨name, earlier ++ [row],
        .call within name_kind opening_kind rows_written closing_kind, rfl, rfl,
        ArgumentRows.items_ofRows earlier row⟩
  | embedded kind written ends ih => exact ih (inside within)
  | single written ih | positional written ih | blockOperand written ih | operand written ih
  | item written ih => exact ih within
  | sequence written improper ih => exact Node.callsWritten_of_nodes _ rfl trivial (ih within)
  | labelled named kind written ih => exact one rfl trivial (ih (inside (inside within)))
  | parenthesized opening_kind closing_kind written ih =>
      exact one rfl trivial (ih (inside within) _ List.mem_cons_self)
  | array opening_kind closing_kind written ih | dict opening_kind closing_kind written ih =>
      exact Node.callsWritten_of_nodes _ rfl trivial (ih (inside within))
  | emptyDict opening_kind colon_kind closing_kind =>
      exact Node.callsWritten_of_no_parts rfl trivial
  | @contentBlock body opening closing middle rest opening_kind closing_kind written ih =>
      refine TreePart.throughout_of_parts trivial (List.forall_mem_singleton.mpr ?_)
      exact Node.callsWritten_of_nodes body rfl trivial (ih (inside within))
  | @call callee args blocks opening closing tokens middle afterArgs rest callee_written
      opening_kind closing_kind attached args_written blocks_written contiguous callee_ih args_ih
      blocks_ih =>
      have after := inside (callee_written.suffix.trans within)
      have args_within := args_ih after
      have blocks_within := blocks_ih (inside (args_written.suffix.trans after))
      exact Node.callsWritten_call (TreePart.callWritten_of_operand callee_written)
        (callee_ih within) (List.forall_mem_append.mpr ⟨args_within, blocks_within⟩)
  | @blockCall callee block tokens middle rest callee_written block_written attached callee_ih
      block_ih =>
      have block_within := block_ih (callee_written.suffix.trans within)
      exact Node.callsWritten_call (TreePart.callWritten_of_operand callee_written)
        (callee_ih within) (List.forall_mem_singleton.mpr block_within)
  | field written dot_kind name_kind ih => exact one rfl trivial (ih within)
  | binary lhs_written writes rhs_written lhs_ih rhs_ih =>
      exact two rfl trivial (lhs_ih within) (rhs_ih (inside (lhs_written.suffix.trans within)))
  | unary writes written ih => exact one rfl trivial (ih (inside within))
  | spread kind written ih => exact one rfl trivial (ih (inside within))
  | named name_kind colon_kind written ih => exact one rfl trivial (ih (inside (inside within)))
  | keyed key_written kind value_written key_ih value_ih =>
      exact two rfl trivial (key_ih within) (value_ih (inside (key_written.suffix.trans within)))
  | none | noRows | noScripts => exact List.forall_mem_nil _
  | more before written before_ih ih =>
      refine List.forall_mem_append.mpr ⟨before_ih within, List.forall_mem_singleton.mpr ?_⟩
      exact ih (before.suffix.trans within)
  | comma before kind ih => exact ih within
  | argument before written before_ih ih =>
      exact ArgumentRows.callsWritten_add (before_ih within) (ih (before.suffix.trans within))
  | rowComma before kind ih => exact ih within
  | endRow before kind ih => exact ArgumentRows.callsWritten_endRow (ih within)
  | @script found side node mark tokens middle rest before kind free written before_ih ih =>
      exact Scripts.callsWritten_put side (before_ih within)
        (ih (inside (before.suffix.trans within)))

theorem Formula.callsWritten_of_ofText {text : String} {formula : Formula}
    (read : Formula.ofText text = .ok formula) :
    ∃ tokens, tokenize text = .ok tokens ∧ formula.node.CallsWritten tokens.toList := by
  obtain ⟨tokens, tokenized, read⟩ := Formula.exists_tokens_of_ofText read
  have inOrder := TokenList.inOrder_of_tokenize tokenized
  have isEnd : tokens.last.kind = .eof := by
    rw [inOrder.last]
  obtain ⟨written, -⟩ := Formula.written_of_ofTokens inOrder.inText isEnd read
  refine ⟨tokens, tokenized, Node.callsWritten_of_nodes formula.exprs rfl trivial ?_⟩
  exact written.callsWritten (List.suffix_refl _)

end EquationMap
