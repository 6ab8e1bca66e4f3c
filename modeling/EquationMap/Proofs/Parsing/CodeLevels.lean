import EquationMap.Proofs.Parsing.Levels

namespace EquationMap.Grammar

open Reading

variable {IsEnd : Nat → Prop} {levels steps above : Nat}

theorem groupOf_keeps {items : List Node} {afterComma : Bool} {place : Place}
    (ends : place.range.EndsAt IsEnd) (fit : ∀ item ∈ items, item.Fits IsEnd levels steps) :
    Keeps IsEnd (groupOf items afterComma place) fun node =>
      node.Fits IsEnd (levels + 1) (steps + 1) := by
  have dict : Node.Fits IsEnd (levels + 1) (steps + 1)
      (.dict (items.filter fun item => isPair item || isSpread item) place) :=
    .around ends rfl rfl fun item member => fit item (List.mem_filter.mp member).1
  unfold groupOf
  refine .ite (.ite (.pure dict) ?_) ?_
  · exact .bind (.report ends) fun _ _ => .pure dict
  · split
    · exact .pure (.around ends rfl rfl fit)
    · exact .pure (.around ends rfl rfl fit)
    · exact .pure (.around ends rfl rfl fit)

theorem codeArgument_keeps {item : Node} (fits : item.Fits IsEnd levels steps) :
    Keeps IsEnd (codeArgument item) fun node => node.Fits IsEnd levels steps := by
  unfold codeArgument
  split
  · rename_i key expr place
    have key_fits : key.Fits _ _ _ := fits.part List.mem_cons_self
    refine .bind (.report key_fits.ends) fun _ _ => .pure (fits.part ?_)
    exact List.mem_cons_of_mem _ List.mem_cons_self
  · exact .pure fits

theorem fits_call {callee : Node} {args : List Node} {argsPlace place : Place} {fewer less : Nat}
    (ends : place.range.EndsAt IsEnd) (callee_fits : callee.Fits IsEnd above steps)
    (fit : ∀ arg ∈ args, arg.Fits IsEnd fewer less) (deeper : fewer < above)
    (shorter : less ≤ steps) :
    (Node.call callee args argsPlace place).Fits IsEnd above (steps + 1) := by
  refine .of_parts ends (by simp [Node.alongside]) ?_
  intro step part direct
  rcases List.mem_cons.mp direct with same | isArg
  · cases same
    exact ⟨above, steps, callee_fits, Nat.le_refl _, Nat.lt_succ_self _⟩
  · obtain ⟨arg, member, same⟩ := List.mem_map.mp isArg
    cases same
    refine ⟨fewer, less, fit part member, ?_, Nat.lt_succ_of_le shorter⟩
    have one : (callee.argumentNesting part).levels ≤ 1 := by
      cases callee.argumentNesting part <;> decide
    omega

section

variable {deeper : Phrase → Reading Node} (limited : Limited IsEnd levels deeper)

include limited

theorem contentBlock_keeps :
    Keeps IsEnd (contentBlock deeper) fun node =>
      node.Fits IsEnd (levels + 1) (levels * levels + 2) := by
  unfold contentBlock
  refine .bind .advance fun opening opens => .bind (sequence_keeps limited) fun body fit => ?_
  refine .bind .expect fun closing closes => .pure ?_
  exact .around (opens.cover closes) rfl rfl fun part member => (fit part member).2

theorem codeItem_keeps :
    Keeps IsEnd (codeItem deeper) fun node =>
      node.Fits IsEnd levels (levels * levels + 1) := by
  unfold codeItem
  refine .bind .isAt fun _ _ => .ite ?_ ?_
  · refine .bind .advance fun dots placed => .bind (limited.expression 0) fun expr fits => ?_
    refine .pure (.beside (placed.cover fits.2.ends) rfl fun part direct => ?_)
    rw [List.mem_singleton.mp direct]
    exact fits.2
  · refine .bind (limited.expression 0) fun expr fits => .bind .isAt fun _ _ => .ite ?_ ?_
    · refine .bind .advance fun _ _ => .bind (limited.expression 0) fun value value_fits => ?_
      have ends := fits.2.ends.cover value_fits.2.ends
      dsimp only
      split
      · refine .pure (.beside ends rfl fun part direct => ?_)
        rw [List.mem_singleton.mp direct]
        exact value_fits.2
      · refine .pure (.beside ends rfl fun part direct => ?_)
        rcases List.mem_cons.mp direct with rfl | isValue
        · exact fits.2
        · rw [List.mem_singleton.mp isValue]
          exact value_fits.2
    · exact .pure fits.2

theorem codeItemsFrom_keeps {found : List Node} {afterComma : Bool} {fuel : Nat}
    (fit : ∀ item ∈ found, item.Fits IsEnd levels (levels * levels + 1)) :
    Keeps IsEnd (codeItemsFrom deeper found afterComma fuel) fun result =>
      ∀ item ∈ result.1, item.Fits IsEnd levels (levels * levels + 1) := by
  have reversed : ∀ item ∈ found.reverse, item.Fits IsEnd levels (levels * levels + 1) :=
    fun item member => fit item (List.mem_reverse.mp member)
  induction fuel generalizing found afterComma with
  | zero => exact .pure reversed
  | succ fuel ih =>
      unfold codeItemsFrom
      refine .bind .current fun _ _ => .ite (.pure reversed) ?_
      refine .bind (codeItem_keeps limited) fun item fits => .bind .isAt fun _ _ => ?_
      have more := List.forall_mem_cons.mpr ⟨fits, fit⟩
      refine .ite (.bind .advance fun _ _ => ih more ?_) (.pure ?_)
      all_goals exact fun other member => more other (List.mem_reverse.mp member)

theorem codeGroup_keeps :
    Keeps IsEnd (codeGroup deeper) fun node =>
      node.Fits IsEnd (levels + 1) (levels * levels + 2) := by
  unfold codeGroup
  refine .bind .advance fun opening opens => .bind .isAt fun _ _ => .ite ?_ ?_
  · refine .bind .advance fun closing closes => .pure ?_
    exact .leaf (opens.cover closes) rfl rfl
  · refine .bind .isAt fun _ _ => .bind .peek fun _ _ => .ite ?_ ?_
    · refine .bind .advance fun _ _ => .bind .advance fun closing closes => .pure ?_
      exact .leaf (opens.cover closes) rfl rfl
    · unfold codeItems
      refine .bind (.bind .remaining fun _ _ => codeItemsFrom_keeps limited ?_) ?_
      · exact fun _ absent => by cases absent
      · intro result fit
        exact .bind .expect fun closing closes => groupOf_keeps (opens.cover closes) fit

theorem codeAtom_keeps :
    Keeps IsEnd (codeAtom deeper) fun node =>
      node.Fits IsEnd (levels + 1) (levels * levels + 2) := by
  unfold codeAtom
  refine .bind .current fun token placed => ?_
  dsimp only
  split
  case h_2 =>
    refine .bind .advance fun _ _ => ?_
    split
    · exact .pure (.leaf placed rfl rfl)
    · exact .number
  case h_3 =>
    refine .bind .advance fun _ _ => ?_
    split
    · exact .pure (.leaf placed rfl rfl)
    · exact .number
  case h_8 => exact codeGroup_keeps limited
  case h_9 => exact contentBlock_keeps limited
  case h_10 => exact .interrupt placed
  all_goals exact .bind .advance fun _ _ => .pure (.leaf placed rfl rfl)

theorem codeTail_keeps {expr : Node} (fits : expr.Fits IsEnd above steps)
    (inLevels : levels < above) (enough : levels * levels + 2 ≤ steps) :
    Keeps IsEnd (codeTail deeper expr) fun node => node.Fits IsEnd above (steps + levels) := by
  unfold codeTail
  refine .bind .current fun token _ => ?_
  dsimp only
  refine .ite (limited.arguments fits inLevels enough) ?_
  refine .ite (limited.attachedBlock fits inLevels enough) ?_
  refine .ite (limited.field fits inLevels enough) ?_
  exact .pure (fits.mono (Nat.le_refl _) (Nat.le_add_right _ _))

theorem codeArgumentsFrom_keeps {found : List Node} {fuel : Nat}
    (fit : ∀ item ∈ found, item.Fits IsEnd levels (levels * levels + 1)) :
    Keeps IsEnd (codeArgumentsFrom deeper found fuel) fun items =>
      ∀ item ∈ items, item.Fits IsEnd levels (levels * levels + 1) := by
  have reversed : ∀ item ∈ found.reverse, item.Fits IsEnd levels (levels * levels + 1) :=
    fun item member => fit item (List.mem_reverse.mp member)
  induction fuel generalizing found with
  | zero => exact .pure reversed
  | succ fuel ih =>
      unfold codeArgumentsFrom
      refine .bind .current fun _ _ => .ite (.pure reversed) ?_
      refine .bind (codeItem_keeps limited) fun item fits => ?_
      refine .bind (codeArgument_keeps fits) fun item fits => .bind .isAt fun _ _ => ?_
      have more := List.forall_mem_cons.mpr ⟨fits, fit⟩
      refine .ite (.bind .advance fun _ _ => ih more ?_) (.pure ?_)
      all_goals exact fun other member => more other (List.mem_reverse.mp member)

theorem attachedBlocksFrom_keeps {found : List Node} {last : ByteRange} {fuel : Nat}
    (fit : ∀ block ∈ found, block.Fits IsEnd (levels + 1) (levels * levels + 2))
    (ends : last.EndsAt IsEnd) :
    Keeps IsEnd (attachedBlocksFrom deeper found last fuel) fun result =>
      (∀ block ∈ result.1, block.Fits IsEnd (levels + 1) (levels * levels + 2)) ∧
        result.2.EndsAt IsEnd := by
  have reversed : ∀ block ∈ found.reverse,
      block.Fits IsEnd (levels + 1) (levels * levels + 2) :=
    fun block member => fit block (List.mem_reverse.mp member)
  induction fuel generalizing found last with
  | zero => exact .pure ⟨reversed, ends⟩
  | succ fuel ih =>
      unfold attachedBlocksFrom
      refine .bind .current fun _ _ => .ite ?_ (.pure ⟨reversed, ends⟩)
      refine .bind (contentBlock_keeps limited) fun block fits => ?_
      have more := List.forall_mem_cons.mpr ⟨fits, fit⟩
      exact ih more fits.ends fun other member => more other (List.mem_reverse.mp member)

theorem codeCall_keeps {callee : Node} (fits : callee.Fits IsEnd above steps)
    (inLevels : levels + 1 < above) (enough : levels * levels + 2 ≤ steps) :
    Keeps IsEnd (codeCall deeper callee) fun node => node.Fits IsEnd above (steps + 1) := by
  unfold codeCall
  refine .bind .advance fun opening _ => .bind .remaining fun _ _ => ?_
  refine .bind (codeArgumentsFrom_keeps limited fun _ absent => by cases absent) ?_
  intro items items_fit
  refine .bind .expect fun closing closes => .bind .remaining fun _ _ => ?_
  refine .bind (attachedBlocksFrom_keeps limited (fun _ absent => by cases absent) closes) ?_
  intro ⟨blocks, last⟩ ⟨blocks_fit, last_ends⟩
  refine .pure (fits_call (fits.ends.cover last_ends) fits ?_ inLevels enough)
  intro arg member
  rcases List.mem_append.mp member with isItem | isBlock
  · exact (items_fit arg isItem).mono (Nat.le_succ _) (Nat.le_succ _)
  · exact blocks_fit arg isBlock

theorem expressionFrom_keeps {power : Nat} {lhs : Node} (fits : lhs.Fits IsEnd above steps)
    (inLevels : levels ≤ above) (enough : levels * levels + 1 ≤ steps) :
    Keeps IsEnd (expressionFrom deeper power lhs) fun node =>
      node.Fits IsEnd above (steps + (levels - 1)) := by
  have same : lhs.Fits IsEnd above (steps + (levels - 1)) :=
    fits.mono (Nat.le_refl _) (Nat.le_add_right _ _)
  unfold expressionFrom
  refine .bind .current fun token _ => ?_
  split
  · exact .pure same
  · refine .ite (.pure same) (.bind .advance fun mark placed => ?_)
    exact (limited.operand placed fits inLevels enough _ _).mono fun _ kept => kept.2

theorem codeOperand_keeps :
    Keeps IsEnd (codeOperand deeper) fun node =>
      node.Fits IsEnd (levels + 1) (levels * levels + 2 + levels) := by
  unfold codeOperand
  refine .bind .current fun token placed => ?_
  split
  · rename_i op _
    refine .bind .advance fun _ _ => .bind (limited.expression op.power) fun expr fits => ?_
    have around : Node.Fits IsEnd (levels + 1) (levels * levels + 2)
        (.unary op expr ⟨.cover token.range expr.range, .detached⟩) :=
      .aroundOne (placed.cover fits.2.ends) rfl rfl fits.2
    exact .pure (around.mono (Nat.le_refl _) (Nat.le_add_right _ _))
  · refine .bind (codeAtom_keeps limited) fun expr fits => ?_
    exact codeTail_keeps limited fits (Nat.lt_succ_self _) (Nat.le_refl _)

theorem atom_keeps {stops : List TokenKind} :
    Keeps IsEnd (atom deeper stops) fun node =>
      node.Fits IsEnd (levels + 1) (levels * levels + levels + 2) := by
  have of_deeper {node : Node} (fits : node.Fits IsEnd (levels + 1) (levels * levels + 2)) :
      node.Fits IsEnd (levels + 1) (levels * levels + levels + 2) :=
    fits.mono (Nat.le_refl _) (by omega)
  have group {closer : TokenKind} : Keeps IsEnd (delimited deeper closer) fun node =>
      node.Fits IsEnd (levels + 1) (levels * levels + levels + 2) :=
    (delimited_keeps limited).mono fun _ => of_deeper
  unfold atom
  refine .bind .current fun token placed => ?_
  have plain : Keeps IsEnd (advance >>= fun _ => pure (.text token.value
      { range := token.range })) fun node : Node =>
        node.Fits IsEnd (levels + 1) (levels * levels + levels + 2) :=
    .bind .advance fun _ _ => .pure (.leaf placed rfl rfl)
  dsimp only
  split
  · refine .bind .peek fun _ _ => .ite (mathCall_keeps limited) ?_
    exact .bind .advance fun _ _ => .pure (.leaf placed rfl rfl)
  · exact .bind .advance fun _ _ => .pure (.leaf placed rfl rfl)
  · exact .bind .advance fun _ _ => .pure (.leaf placed rfl rfl)
  · refine .bind .advance fun _ _ => .bind .endsSequence fun _ _ => .ite ?_ ?_
    · exact .bind (.report placed) fun _ _ => .pure (.leaf placed rfl rfl)
    · refine .bind (limited.atom stops) fun radicand fits => .pure ?_
      have square := Nat.le_mul_self levels
      have around : Node.Fits IsEnd (levels + 1) (levels * levels + 2 - levels + 1)
          (.root (Token.degreeOf token.value) radicand
            ⟨.cover token.range radicand.range, .detached⟩) :=
        .aroundOne (placed.cover fits.2.ends) rfl rfl fits.2
      exact around.mono (Nat.le_refl _) (by omega)
  · exact primes_keeps.map fun marks ends => .leaf ends rfl rfl
  · exact .bind .advance fun _ _ => .pure (.leaf placed rfl rfl)
  · exact .bind .advance fun _ _ => .pure (.leaf placed rfl rfl)
  · refine .bind .advance fun _ _ => .bind (codeAtom_keeps limited) fun expr fits => ?_
    refine (codeTail_keeps limited fits (Nat.lt_succ_self _) (Nat.le_refl _)).mono ?_
    exact fun node fits => fits.mono (Nat.le_refl _) (by omega)
  · exact group
  · exact group
  · exact group
  · exact .bind hasClosingBar_keeps fun _ _ => .ite group plain
  · exact .bind .advance fun _ _ => .interrupt placed
  · exact .bind .advance fun _ _ => .interrupt placed
  · exact plain

/-- Phrases that hold phrases with so many levels have one more. -/
theorem Limited.body : Limited IsEnd (levels + 1) (body deeper) := by
  -- The square is multiplied out, so that bounds on steps are linear in it.
  have square : (levels + 1) * (levels + 1) = levels * levels + levels + levels + 1 :=
    Nat.succ_mul_succ _ _
  have least := Nat.le_mul_self levels
  refine ⟨?_, ?_, ?_, ?_, ?_, ?_, ?_, ?_⟩
  · intro stops
    exact (atom_keeps limited).mono fun node fits =>
      ⟨Nat.succ_pos _, fits.mono (Nat.le_refl _) (by omega)⟩
  · intro mark _ stops stop
    exact (attachment_keeps limited).mono fun node fits =>
      ⟨Nat.succ_pos _, fits.2.mono (Nat.le_refl _) (by omega)⟩
  · intro num slash above steps _ fits inLevels enough stops
    refine .bind (attachment_keeps limited) fun denom denom_fits => ?_
    have frac : Node.Fits IsEnd above (steps + 1)
        (.frac num denom ⟨.cover num.range denom.range, .detached⟩) :=
      .after (fits.ends.cover denom_fits.2.ends) rfl rfl fits denom_fits.2 inLevels (by omega)
    refine (fractionFrom_keeps limited frac (Nat.le_of_lt inLevels) (by omega)).mono ?_
    exact fun node kept => ⟨Nat.succ_pos _, kept.mono (Nat.le_refl _) (by omega)⟩
  · intro callee above steps fits inLevels enough
    refine .bind (codeCall_keeps limited fits inLevels (by omega)) fun call call_fits => ?_
    refine (codeTail_keeps limited call_fits (by omega) (by omega)).mono ?_
    exact fun node kept => kept.mono (Nat.le_refl _) (by omega)
  · intro callee above steps fits inLevels enough
    refine .bind (contentBlock_keeps limited) fun block block_fits => ?_
    have args_fit : ∀ arg ∈ [block], arg.Fits IsEnd (levels + 1) (levels * levels + 2) :=
      fun arg member => List.mem_singleton.mp member ▸ block_fits
    have call : Node.Fits IsEnd above (steps + 1) (.call callee [block]
        ⟨block.range, .detached⟩ ⟨.cover callee.range block.range, .detached⟩) :=
      fits_call (fits.ends.cover block_fits.ends) fits args_fit inLevels (by omega)
    refine (codeTail_keeps limited call (by omega) (by omega)).mono ?_
    exact fun node kept => kept.mono (Nat.le_refl _) (by omega)
  · intro target above steps fits inLevels enough
    refine .bind .advance fun _ _ => .bind .expect fun name named => ?_
    have field : Node.Fits IsEnd above (steps + 1) (.field target name.value
        ⟨.cover target.range name.range, .detached⟩) := by
      refine .of_parts (fits.ends.cover named) (by simp [Node.alongside]) ?_
      intro step part direct
      cases List.mem_singleton.mp direct
      exact ⟨above, steps, fits, Nat.le_refl _, Nat.lt_succ_self _⟩
    refine (codeTail_keeps limited field (by omega) (by omega)).mono ?_
    exact fun node kept => kept.mono (Nat.le_refl _) (by omega)
  · intro power
    refine .bind (codeOperand_keeps limited) fun lhs fits => ?_
    refine (expressionFrom_keeps limited fits (Nat.le_succ _) (by omega)).mono ?_
    exact fun node kept => ⟨Nat.succ_pos _, kept.mono (Nat.le_refl _) (by omega)⟩
  · intro lhs mark above steps _ fits inLevels enough op power
    refine .bind (limited.expression op.rightPower) fun rhs rhs_fits => ?_
    have binary : Node.Fits IsEnd above (steps + 1)
        (.binary lhs op rhs ⟨.cover lhs.range rhs.range, .detached⟩) :=
      .after (fits.ends.cover rhs_fits.2.ends) rfl rfl fits rhs_fits.2 inLevels (by omega)
    refine (expressionFrom_keeps limited binary (Nat.le_of_lt inLevels) (by omega)).mono ?_
    exact fun node kept => ⟨Nat.succ_pos _, kept.mono (Nat.le_refl _) (by omega)⟩

end

theorem phrase_limited (levels : Nat) : Limited IsEnd levels (Grammar.phrase levels) := by
  induction levels with
  | zero =>
      have at_mark {range : ByteRange} (placed : range.EndsAt IsEnd) (cursor : Cursor)
          (_ : cursor.EndsAt IsEnd) : range.EndsAt IsEnd := placed
      refine ⟨?_, ?_, ?_, ?_, ?_, ?_, ?_, ?_⟩
      · exact fun _ => .abandoning fun _ ends => ends.current
      · exact fun placed _ _ => .abandoning (at_mark placed)
      · exact fun placed _ _ _ _ => .abandoning (at_mark placed)
      · exact fun _ _ _ => .abandoning fun _ ends => ends.current
      · exact fun _ _ _ => .abandoning fun _ ends => ends.current
      · exact fun _ _ _ => .abandoning fun _ ends => ends.current
      · exact fun _ => .abandoning fun _ ends => ends.current
      · exact fun placed _ _ _ _ _ => .abandoning (at_mark placed)
  | succ levels ih => exact ih.body

end EquationMap.Grammar
