import EquationMap.Proofs.Spacing.Mathematics

namespace EquationMap.Grammar

/-! Embedded code is read alike, and so are phrases of every sort. Here it matters where an
expression ends: a bracket directly after it makes a call of it. -/

open Reading

variable {low low' : Nat} {cursor cursor' : Cursor}

@[simp]
theorem isPair_bare (node : Node) : isPair node.bare = isPair node := by
  cases node <;> rfl

@[simp]
theorem isSpread_bare (node : Node) : isSpread node.bare = isSpread node := by
  cases node <;> rfl

theorem eq_ident_of_bare {node : Node} {name : String} {place : Place}
    (same : node.bare = .ident name place) : ∃ place', node = .ident name place' := by
  cases node <;> simp [Node.bare] at same
  exact ⟨_, by rw [same.1]⟩

theorem eq_keyed_of_bare {node key expr : Node} {place : Place}
    (same : node.bare = .keyed key expr place) :
    ∃ key' expr' place', node = .keyed key' expr' place' ∧ expr'.bare = expr := by
  cases node <;> simp [Node.bare] at same
  exact ⟨_, _, _, rfl, same.2.1⟩

theorem codeArgument_agrees {item item' : Node} (same : item.bare = item'.bare) :
    Agrees Node.bare (codeArgument item) (codeArgument item') := by
  unfold codeArgument
  split
  · obtain ⟨key', expr', place', rfl, sameExpr⟩ := eq_keyed_of_bare same.symm
    exact .bindSame .report fun _ => .pure sameExpr.symm
  · rename_i notKeyed
    split
    · obtain ⟨key, expr, place, rfl, -⟩ := eq_keyed_of_bare same
      exact (notKeyed _ _ _ rfl).elim
    · exact .pure same

/-- What the items of a group make if there is no pair among them. -/
def plainGroup (items : List Node) (afterComma : Bool) (place : Place) : Node :=
  match items with
  | [item] => if isSpread item || afterComma then .array [item] place else .parenthesized item place
  | items => .array items place

theorem groupOf_plain {items : List Node} (noPairs : ¬items.any isPair = true)
    (afterComma : Bool) (place : Place) :
    groupOf items afterComma place = pure (plainGroup items afterComma place) := by
  unfold groupOf
  rw [if_neg noPairs]
  rcases items with _ | ⟨item, _ | ⟨second, others⟩⟩
  · rfl
  · cases item <;> cases afterComma <;> rfl
  · cases item <;> rfl

theorem plainGroup_bare (items : List Node) (afterComma : Bool) (place : Place) :
    (plainGroup items afterComma place).bare =
      plainGroup (items.map Node.bare) afterComma place.bare := by
  rcases items with _ | ⟨item, _ | ⟨second, others⟩⟩
  · rfl
  · simp only [plainGroup, List.map_cons, List.map_nil, isSpread_bare]
    split <;> rfl
  · simp [plainGroup, Node.bare]

theorem range_plainGroup (items : List Node) (afterComma : Bool) (place : Place) :
    (plainGroup items afterComma place).range = place.range := by
  unfold plainGroup
  split
  · split <;> rfl
  · rfl

theorem groupOf_alike (alike : cursor.Alike low low' cursor') {items items' : List Node}
    (same : items.map Node.bare = items'.map Node.bare) (afterComma : Bool) {less less' : Nat}
    {range range' : ByteRange} (joins : cursor.Joins less less' range range' cursor') :
    Agree low low' (Operands less less') (groupOf items afterComma { range } cursor)
      (groupOf items' afterComma { range := range' } cursor') := by
  have samePairs : items.any isPair = items'.any isPair := by
    simpa [Function.comp_def] using congrArg (List.any · isPair) same
  by_cases pairs : items.any isPair = true
  · have sameAll : (items.all fun item => isPair item || isSpread item) =
        items'.all fun item => isPair item || isSpread item := by
      simpa [Function.comp_def] using
        congrArg (List.all · fun item => isPair item || isSpread item) same
    have sameItems : (items.filter fun item => isPair item || isSpread item).map Node.bare =
        (items'.filter fun item => isPair item || isSpread item).map Node.bare := by
      simpa [List.filter_map, Function.comp_def] using
        congrArg (List.filter fun item => isPair item || isSpread item) same
    have dict : (Node.dict (items.filter fun item => isPair item || isSpread item)
        { range }).bare = (Node.dict (items'.filter fun item => isPair item || isSpread item)
          { range := range' }).bare := by
      simp [Node.bare, sameItems, Place.bare]
    have pairs' : items'.any isPair = true := samePairs ▸ pairs
    unfold groupOf
    rw [if_pos pairs, if_pos pairs']
    refine .ite (by rw [sameAll]) (fun _ => .completed alike ⟨dict, joins⟩) fun _ => ?_
    exact .completed (alike.report _ _ _) ⟨dict, joins.report _ _ _⟩
  · rw [groupOf_plain pairs, groupOf_plain (samePairs ▸ pairs)]
    refine .completed alike ⟨?_, ?_⟩
    · rw [plainGroup_bare, plainGroup_bare, same]
      rfl
    · rw [range_plainGroup, range_plainGroup]
      exact joins

section

variable {deeper : Phrase → Reading Node} (readAlike : ReadAlike deeper)

include readAlike

theorem contentBlock_alike (alike : cursor.Alike low low' cursor') :
    Agree low low' (Operands low low') (contentBlock deeper cursor)
      (contentBlock deeper cursor') := by
  unfold contentBlock
  rw [advance_bind, advance_bind]
  refine Agree.lower ?_ alike.low alike.low'
  refine .bind ((sequence_agrees readAlike).ends alike.raised.next) ?_
  intro body body' last last' later same
  refine .bind (.expect later) fun closing closing' last last' later ⟨_, joins⟩ => ?_
  refine .completed later ⟨?_, joins.cover alike.low alike.low'⟩
  simp [Node.bare, same, Place.bare]

theorem codeItem_agrees : Agrees Node.bare (codeItem deeper) (codeItem deeper) := by
  unfold codeItem
  refine .bindSame .isAt fun _ => .ite ?_ ?_
  · refine .bindToken .advance fun _ _ _ _ => .bind (readAlike.expression 0) ?_
    intro expr expr' same
    refine .pure ?_
    simp [Node.bare, same, Place.bare]
  · refine .bind (readAlike.expression 0) fun expr expr' same => .bindSame .isAt fun _ => ?_
    refine .ite ?_ (.pure same)
    refine .bindToken .advance fun _ _ _ _ => .bind (readAlike.expression 0) ?_
    intro value value' sameValue
    dsimp only
    split
    · obtain ⟨place', rfl⟩ := eq_ident_of_bare same.symm
      refine .pure ?_
      simp [Node.bare, sameValue, Place.bare]
    · rename_i notIdent
      split
      · obtain ⟨place', rfl⟩ := eq_ident_of_bare same
        exact (notIdent _ _ rfl).elim
      · refine .pure ?_
        simp [Node.bare, same, sameValue, Place.bare]

theorem codeItemsFrom_agrees {found found' : List Node}
    (same : found.map Node.bare = found'.map Node.bare) (afterComma : Bool) (fuel : Nat) :
    Agrees (fun result => (result.1.map Node.bare, result.2))
      (codeItemsFrom deeper found afterComma fuel)
      (codeItemsFrom deeper found' afterComma fuel) := by
  induction fuel generalizing found found' afterComma with
  | zero => exact .pure (by simp [same])
  | succ fuel induction =>
      unfold codeItemsFrom
      refine .bindToken .current fun _ _ _ _ => .ite (.pure (by simp [same])) ?_
      refine .bind (codeItem_agrees readAlike) fun item item' sameItem => ?_
      refine .bindSame .isAt fun _ => .ite ?_ (.pure (by simp [same, sameItem]))
      exact .bindToken .advance fun _ _ _ _ => induction (by simp [same, sameItem]) true

theorem codeGroup_alike (alike : cursor.Alike low low' cursor') :
    Agree low low' (Operands low low') (codeGroup deeper cursor)
      (codeGroup deeper cursor') := by
  have inside := alike.raised.next
  unfold codeGroup
  rw [advance_bind, advance_bind, isAt_bind, isAt_bind]
  refine Agree.lower ?_ alike.low alike.low'
  refine .ite (by rw [inside.current.kind]) (fun _ => ?_) fun _ => ?_
  · rw [advance_bind, advance_bind]
    exact .completed inside.next ⟨rfl, inside.joins_next.cover alike.low alike.low'⟩
  · rw [isAt_bind, isAt_bind, peek_bind, peek_bind]
    refine .ite ?_ (fun _ => ?_) fun _ => ?_
    · rw [inside.current.kind, Cursor.peek_eq_next, Cursor.peek_eq_next, inside.next.current.kind]
    · rw [advance_bind, advance_bind, advance_bind, advance_bind]
      exact .completed inside.next.next
        ⟨rfl, inside.next.joins_next.cover alike.low alike.low'⟩
    · have items_agree : Agrees (fun result => (result.1.map Node.bare, result.2))
          (codeItems deeper) (codeItems deeper) :=
        .bindSame .remaining fun _ => codeItemsFrom_agrees readAlike rfl false _
      refine .bind (items_agree.ends inside) ?_
      intro ⟨items, afterComma⟩ ⟨items', afterComma'⟩ last last' later same
      obtain ⟨sameItems, rfl⟩ := Prod.mk.inj same
      refine .bind (.expect later) fun closing closing' last last' later ⟨_, joins⟩ => ?_
      exact groupOf_alike later sameItems afterComma (joins.cover alike.low alike.low')

theorem codeAtom_alike (alike : cursor.Alike low low' cursor') :
    Agree low low' (Operands low low') (codeAtom deeper cursor) (codeAtom deeper cursor') := by
  have leaf {node node' : Node} (same : node.bare = node'.bare)
      (range : node.range = cursor.current.range) (range' : node'.range = cursor'.current.range) :
      Agree low low' (Operands low low') ((advance >>= fun _ => pure node) cursor)
        ((advance >>= fun _ => pure node') cursor') := by
    refine .completed alike.next ⟨same, ?_⟩
    rw [range, range']
    exact alike.joins_next
  unfold codeAtom
  rw [current_bind, current_bind]
  rw [← alike.current.kind, ← alike.current.value]
  generalize cursor.current.kind = kind
  generalize cursor.current.value = value
  cases kind
  case lparen => exact codeGroup_alike readAlike alike
  case lbracket => exact contentBlock_alike readAlike alike
  case ident | string | bool | none | auto => exact leaf rfl rfl rfl
  case int =>
    dsimp only
    cases Decimal.readInteger value with
    | ok value => exact leaf rfl rfl rfl
    | error fault => exact .interrupted alike.next
  case float =>
    dsimp only
    cases Decimal.readNumeral? value.toList with
    | some value => exact leaf rfl rfl rfl
    | none => exact .interrupted alike.next
  all_goals exact .interrupted (alike.report _ _ _)

theorem codeTail_alike (alike : cursor.Alike low low' cursor') {expr expr' : Node}
    (operands : Operands low low' expr expr' cursor cursor') :
    Agree low low' (fun node node' _ _ => node.bare = node'.bare) (codeTail deeper expr cursor)
      (codeTail deeper expr' cursor') := by
  have attached (kind : TokenKind) (attaches : kind.Attaches) :
      (cursor.current.kind = kind ∧ expr.range.stop = cursor.current.range.start) ↔
        (cursor'.current.kind = kind ∧ expr'.range.stop = cursor'.current.range.start) := by
    rw [alike.current.kind]
    refine and_congr_right fun atKind => operands.joins.joined ?_
    rw [alike.current.kind, atKind]
    exact attaches
  unfold codeTail
  rw [current_bind, current_bind]
  refine .ite (attached .lparen (.inl rfl)) (fun _ => readAlike.arguments alike operands) ?_
  intro _
  refine .ite (attached .lbracket (.inr rfl)) (fun _ => readAlike.attachedBlock alike operands) ?_
  intro _
  refine .ite (by rw [alike.current.kind]) (fun _ => readAlike.field alike operands) ?_
  exact fun _ => .completed alike operands.same

theorem codeChain_agrees :
    Agrees Node.bare (codeAtom deeper >>= codeTail deeper)
      (codeAtom deeper >>= codeTail deeper) where
  ends alike := (codeAtom_alike readAlike alike).bind fun _ _ _ _ later operands =>
    codeTail_alike readAlike later operands

theorem codeArgumentsFrom_agrees {found found' : List Node}
    (same : found.map Node.bare = found'.map Node.bare) (fuel : Nat) :
    Agrees (List.map Node.bare) (codeArgumentsFrom deeper found fuel)
      (codeArgumentsFrom deeper found' fuel) := by
  induction fuel generalizing found found' with
  | zero => exact .pure (by simp [same])
  | succ fuel induction =>
      unfold codeArgumentsFrom
      refine .bindToken .current fun _ _ _ _ => .ite (.pure (by simp [same])) ?_
      refine .bind (codeItem_agrees readAlike) fun item item' sameItem => ?_
      refine .bind (codeArgument_agrees sameItem) fun item item' sameItem => ?_
      refine .bindSame .isAt fun _ => .ite ?_ (.pure (by simp [same, sameItem]))
      exact .bindToken .advance fun _ _ _ _ => induction (by simp [same, sameItem])

theorem attachedBlocksFrom_alike (alike : cursor.Alike low low' cursor')
    {found found' : List Node} (same : found.map Node.bare = found'.map Node.bare)
    {last last' : ByteRange} (joins : cursor.Joins low low' last last' cursor') (fuel : Nat) :
    Agree low low' (fun result result' cursor cursor' =>
        result.1.map Node.bare = result'.1.map Node.bare ∧
          cursor.Joins low low' result.2 result'.2 cursor')
      (attachedBlocksFrom deeper found last fuel cursor)
      (attachedBlocksFrom deeper found' last' fuel cursor') := by
  induction fuel generalizing cursor cursor' found found' last last' with
  | zero => exact .completed alike ⟨by simp [same], joins⟩
  | succ fuel induction =>
      unfold attachedBlocksFrom
      rw [current_bind, current_bind]
      refine .ite ?_ (fun _ => ?_) fun _ => .completed alike ⟨by simp [same], joins⟩
      · rw [alike.current.kind]
        refine and_congr_right fun atKind => joins.joined (.inr ?_)
        rw [alike.current.kind, atKind]
      · refine .bind (contentBlock_alike readAlike alike) fun block block' _ _ later made => ?_
        exact induction later (by simp [same, made.same]) made.joins

theorem codeCall_alike (alike : cursor.Alike low low' cursor') {callee callee' : Node}
    (operands : Operands low low' callee callee' cursor cursor') :
    Agree low low' (Operands low low') (codeCall deeper callee cursor)
      (codeCall deeper callee' cursor') := by
  have inside := alike.raised.next
  unfold codeCall
  rw [advance_bind, advance_bind, remaining_bind, remaining_bind, inside.length_rest]
  refine Agree.lower ?_ alike.low alike.low'
  refine .bind ((codeArgumentsFrom_agrees readAlike rfl _).ends inside) ?_
  intro items items' last last' later sameItems
  refine .bind (.expect later) fun closing closing' last last' later ⟨_, joins⟩ => ?_
  rw [remaining_bind, remaining_bind, later.length_rest]
  refine .bind (attachedBlocksFrom_alike readAlike later rfl joins _) ?_
  intro ⟨blocks, stop⟩ ⟨blocks', stop'⟩ last last' later ⟨sameBlocks, joins⟩
  dsimp only at sameBlocks joins
  refine .completed later ⟨?_, ?_⟩
  · simp [Node.bare, operands.same, sameItems, sameBlocks, Place.bare]
  · exact operands.joins_cover joins

theorem expressionFrom_agrees {power : Nat} {lhs lhs' : Node} (same : lhs.bare = lhs'.bare) :
    Agrees Node.bare (expressionFrom deeper power lhs) (expressionFrom deeper power lhs') := by
  unfold expressionFrom
  refine .bindToken .current fun kind _ _ _ => ?_
  dsimp only
  split
  · exact .pure same
  · refine .ite (.pure same) (.bindToken .advance fun _ _ _ _ => ?_)
    exact readAlike.operand same _ _ _ power

theorem codeOperand_agrees : Agrees Node.bare (codeOperand deeper) (codeOperand deeper) := by
  unfold codeOperand
  refine .bindToken .current fun kind _ _ _ => ?_
  dsimp only
  split
  · refine .bindToken .advance fun _ _ _ _ => .bind (readAlike.expression _) ?_
    intro expr expr' same
    refine .pure ?_
    simp [Node.bare, same, Place.bare]
  · exact codeChain_agrees readAlike

theorem attachedBlock_alike (alike : cursor.Alike low low' cursor') {callee callee' : Node}
    (operands : Operands low low' callee callee' cursor cursor') :
    Agree low low' (fun node node' _ _ => node.bare = node'.bare)
      (body deeper (.attachedBlock callee) cursor)
      (body deeper (.attachedBlock callee') cursor') := by
  refine .bind ((contentBlock_alike readAlike alike.raised).lower alike.low alike.low') ?_
  intro block block' last last' later ⟨sameBlock, joins⟩
  refine codeTail_alike readAlike later ⟨?_, ?_⟩
  · simp [Node.bare, operands.same, sameBlock, Place.bare]
  · exact operands.joins_cover joins

theorem field_alike (alike : cursor.Alike low low' cursor') {target target' : Node}
    (operands : Operands low low' target target' cursor cursor') :
    Agree low low' (fun node node' _ _ => node.bare = node'.bare)
      (body deeper (.field target) cursor) (body deeper (.field target') cursor') := by
  change Agree _ _ _ ((expect .ident >>= _) cursor.next) ((expect .ident >>= _) cursor'.next)
  refine .bind ((Agree.expect alike.raised.next).lower alike.low alike.low') ?_
  intro name name' last last' later ⟨sameName, joins⟩
  refine codeTail_alike readAlike later ⟨?_, ?_⟩
  · simp [Node.bare, operands.same, sameName, Place.bare]
  · exact operands.joins_cover joins

variable [∀ phrase, GoesForward (deeper phrase)] [StartsInPlace deeper]

theorem atom_agrees {stops : List TokenKind} :
    Agrees Node.bare (atom deeper stops) (atom deeper stops) where
  ends {low low' cursor cursor'} alike := by
    have leaf {node node' : Node} (same : node.bare = node'.bare) :
        Agrees Node.bare (advance >>= fun _ => pure node) (advance >>= fun _ => pure node') :=
      .bindToken .advance fun _ _ _ _ => .pure same
    -- An identifier makes a call if the parenthesis after it is attached, so the next tokens
    -- have to be known together with the current ones.
    have joined := alike.next_current.2.2
    rw [← Cursor.peek_eq_next, ← Cursor.peek_eq_next] at joined
    have sameNext := alike.next.current.kind
    rw [← Cursor.peek_eq_next, ← Cursor.peek_eq_next] at sameNext
    have sameKind := alike.current.kind
    have sameValue := alike.current.value
    unfold atom
    rw [current_bind, current_bind]
    generalize cursor.current = token at *
    generalize cursor'.current = token' at *
    obtain ⟨kind, value, range⟩ := token
    obtain ⟨kind', value', range'⟩ := token'
    cases sameKind
    cases sameValue
    cases kind
    case ident =>
      refine .ite ?_ (fun _ => (mathCall_agrees readAlike).ends alike) fun _ => ?_
      · rw [sameNext]
        exact and_congr_right fun atParen => joined (.inl (sameNext.trans atParen))
      · refine (leaf ?_).ends alike
        rfl
    case root =>
      refine Agrees.ends ?_ alike
      refine .bindToken .advance fun _ _ _ _ => .bindSame .endsSequence fun _ => .ite ?_ ?_
      · exact .bindSame .report fun _ => .pure rfl
      · refine .bind (readAlike.atom stops) fun radicand radicand' same => .pure ?_
        simp [Node.bare, same, Place.bare]
    case prime =>
      refine Agrees.ends ?_ alike
      exact primes_agrees.map fun _ _ same => congrArg Node.primes same
    case hash =>
      refine Agrees.ends ?_ alike
      exact .bindToken .advance fun _ _ _ _ => codeChain_agrees readAlike
    case lparen | lbracket | lbrace => exact (delimited_agrees readAlike).ends alike
    case bar =>
      refine Agrees.ends ?_ alike
      refine .bindSame hasClosingBar_agrees fun _ => .ite (delimited_agrees readAlike) (leaf ?_)
      rfl
    case hat | underscore =>
      refine Agrees.ends ?_ alike
      exact .bindToken .advance fun _ _ _ _ => .bindSame .report fun _ => .interrupt
    all_goals
      refine (leaf ?_).ends alike
      rfl

/-- Phrases whose phrases of the next level are read alike are read alike themselves. -/
theorem ReadAlike.body : ReadAlike (body deeper) where
  atom _ := atom_agrees readAlike
  script _ _ _ _ := attachment_agrees readAlike
  denominator same _ _ _ := by
    refine .bind (attachment_agrees readAlike) fun denom denom' sameDenom => ?_
    refine fractionFrom_agrees readAlike ?_
    simp [Node.bare, same, sameDenom, Place.bare]
  arguments alike operands :=
    (codeCall_alike readAlike alike operands).bind fun _ _ _ _ later made =>
      codeTail_alike readAlike later made
  attachedBlock alike operands := attachedBlock_alike readAlike alike operands
  field alike operands := field_alike readAlike alike operands
  expression power :=
    .bind (codeOperand_agrees readAlike) fun _ _ same => expressionFrom_agrees readAlike same
  operand same op _ _ power := by
    refine .bind (readAlike.expression _) fun rhs rhs' sameRhs => ?_
    refine expressionFrom_agrees readAlike ?_
    simp [Node.bare, same, sameRhs, Place.bare]

end

theorem phrase_alike (levels : Nat) : ReadAlike (Grammar.phrase levels) := by
  induction levels with
  | zero =>
      refine ⟨?_, ?_, ?_, ?_, ?_, ?_, ?_, ?_⟩
      · exact fun _ => .abandoning
      · exact fun _ _ _ _ => .abandoning
      · exact fun _ _ _ _ => .abandoning
      · exact fun alike _ => .interrupted (alike.report _ _ _)
      · exact fun alike _ => .interrupted (alike.report _ _ _)
      · exact fun alike _ => .interrupted (alike.report _ _ _)
      · exact fun _ => .abandoning
      · exact fun _ _ _ _ _ => .abandoning
  | succ levels induction => exact induction.body

end EquationMap.Grammar
