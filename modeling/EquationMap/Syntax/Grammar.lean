import EquationMap.Syntax.Cursor
import EquationMap.Syntax.Phrase
import EquationMap.Text.Letter

namespace EquationMap

/-! The grammar of formulas. Mathematics is a sequence of fractions of atoms with scripts;
embedded code is an expression with operators by binding power. Every phrase that a phrase of
the same sort may contain is read one level deeper, and levels are limited. -/

def Phrase.mark (cursor : Cursor) : Phrase → ByteRange
  | script mark _ _ | denominator _ mark _ | operand _ _ mark _ => mark
  | atom _ | arguments _ | attachedBlock _ | field _ | expression _ => cursor.current.range

namespace Grammar

def operatorSymbols : List Char :=
  "+−=<>×·⋅÷±∓∗→←↔⇒⇔≤≥≠≔≈≪≫⟶⟵⟹⟸↦".toList

def operatorSymbol? : Node → Option String
  | .shorthand _ symbol _ | .text symbol _ =>
      match symbol.toList with
      | [c] => if operatorSymbols.contains c then some symbol else none
      | _ => none
  | _ => none

/-- Whether the bracket depth of the tokens returns to a bar before anything closes. -/
def closesBar (stops : List TokenKind) (depth : Nat) : List Token → Bool
  | [] => false
  | token :: rest =>
      if token.kind = .eof then false
      else if depth = 0 ∧ stops.contains token.kind then false
      else if token.kind.isOpener then closesBar stops (depth + 1) rest
      else if token.kind.isCloser then
        if depth = 0 then false else closesBar stops (depth - 1) rest
      else if token.kind = .bar ∧ depth = 0 then true
      else closesBar stops depth rest

def hasClosingBar (stops : List TokenKind) : Reading Bool := fun cursor =>
  .ok (closesBar stops 0 cursor.rest) cursor

def isPrimes : Node → Bool
  | .primes _ => true
  | _ => false

/-- Reads prime marks; `last` is the range of the marks read so far. -/
def primesFrom (count : Nat) (last : ByteRange) : Nat → Reading Primes
  | 0 => return ⟨count, { range := last }⟩
  | fuel + 1 => do
      if ← Reading.isAt .prime then
        let mark ← Reading.advance
        primesFrom (count + 1) (.cover last mark.range) fuel
      else return ⟨count, { range := last }⟩

def primes : Reading Primes := do
  let first ← Reading.current
  primesFrom 0 (.cover first.range first.range) ((← Reading.remaining) + 1)

section

variable (deeper : Phrase → Reading Node)

def fractionFrom (stops : List TokenKind) (num : Node) : Reading Node := do
  if ← Reading.isAt .slash then
    let slash ← Reading.advance
    if ← Reading.endsSequence stops then
      Reading.report .missingDenominator slash.range
      return num
    else deeper (.denominator num slash.range stops)
  else return num

def script (side : ScriptSide) (mark : Token) (stops : List TokenKind)
    (stop : Option ScriptSide) : Reading (Option Node) := do
  if ← Reading.endsSequence stops then
    Reading.report (.missingScript side) mark.range
    return none
  else some <$> deeper (.script mark.range stops stop)

structure Scripts where
  bottom : Option Node := none
  top : Option Node := none
  last : Option ByteRange := none

def Scripts.put (scripts : Scripts) (side : ScriptSide) (node : Node) : Scripts :=
  match side with
  | .below => { scripts with bottom := some node, last := some node.range }
  | .above => { scripts with top := some node, last := some node.range }

/-- Reads the second script of an atom, on the side that the first one left free. -/
def secondScript (side : ScriptSide) (stops : List TokenKind) (scripts : Scripts) :
    Reading Scripts := do
  if ← Reading.isAt side.kind then
    let mark ← Reading.advance
    match ← script deeper side mark stops none with
    | some node => return scripts.put side node
    | none => return scripts
  else return scripts

def scripts (stops : List TokenKind) (stop : Option ScriptSide) : Reading Scripts := do
  match ScriptSide.ofKind? (← Reading.current).kind with
  | none => return {}
  | some side =>
      if some side = stop then return {}
      else
        let mark ← Reading.advance
        match ← script deeper side mark stops (some side.other) with
        | some node => secondScript deeper side.other stops (Scripts.put {} side node)
        | none => return {}

/-- Reads an atom with its primes and scripts. Scripts group to the right: `x^a^b` is
`x^(a^b)`. A superscript ends before a `_` and a subscript before a `^`, so that in `x^a_b`
both belong to `x`. -/
def attachment (stops : List TokenKind) (stop : Option ScriptSide) : Reading Node := do
  let base ← deeper (.atom stops)
  let marks ←
    if (← Reading.isAt .prime) && !isPrimes base then some <$> primes else pure none
  let scripts ← scripts deeper stops stop
  if marks.isNone ∧ scripts.last.isNone then return base
  else
    let primesEnd := (marks.map fun marks => marks.place.range).getD base.range
    let last := scripts.last.getD primesEnd
    return .attach base scripts.bottom scripts.top marks { range := .cover base.range last }

def fraction (stops : List TokenKind) : Reading Node := do
  fractionFrom deeper stops (← attachment deeper stops none)

/-- Reads expressions up to the end of a sequence. A faulty one is left out; the tokens are
read on from where it broke off. -/
def sequenceFrom (stops : List TokenKind) (found : List Node) : Nat → Reading (List Node)
  | 0 => return found.reverse
  | fuel + 1 => do
      if ← Reading.endsSequence stops then return found.reverse
      else
        let before ← Reading.remaining
        match ← Reading.attempt (fraction deeper stops) with
        | none =>
            if (← Reading.remaining) = before then
              let _ ← Reading.advance
            sequenceFrom stops found fuel
        | some expr =>
            if !found.isEmpty && (← Reading.endsSequence stops) then
              match operatorSymbol? expr with
              | some symbol => Reading.report (.missingOperand symbol) expr.range
              | none => pure ()
            sequenceFrom stops (expr :: found) fuel

def sequence (stops : List TokenKind) : Reading (List Node) := do
  sequenceFrom deeper stops [] ((← Reading.remaining) + 1)

def delimited (closer : TokenKind) : Reading Node := do
  let opening ← Reading.advance
  let body ← sequence deeper [closer]
  let closing ←
    if ← Reading.isAt closer then
      let token ← Reading.advance
      pure (⟨token.value, { range := token.range }⟩ : Delimiter)
    else
      Reading.report .unclosedDelimiter opening.range
      let here := (← Reading.current).range.start
      pure ⟨"", { range := .empty here }⟩
  let inside ← Reading.range opening.range.stop closing.place.range.start
  return .delimited ⟨opening.value, { range := opening.range }⟩ body { range := inside } closing
    { range := .cover opening.range closing.place.range }

def argumentStops : List TokenKind := [.comma, .semicolon, .rparen]

/-- Reads the value of an argument: a single expression, or a sequence of any other length. -/
def argumentValue : Reading Node := do
  let start := (← Reading.current).range.start
  match ← sequence deeper argumentStops with
  | [expr] => return expr
  | exprs =>
      let stop := (exprs.getLast?.map fun expr => expr.range.stop).getD start
      let range ← Reading.range start stop
      return .math exprs { range }

def namesArgument (token : Token) : Bool :=
  (token.kind = .text || token.kind = .ident) &&
    !token.value.isEmpty && token.value.toList.all Text.isLetter

def argument : Reading Node := do
  let token ← Reading.current
  if namesArgument token && (← Reading.peek).kind = .colon then
    let _ ← Reading.advance
    let _ ← Reading.advance
    let value ← argumentValue deeper
    return .named token.value value { range := .cover token.range value.range }
  else argumentValue deeper

/-- The arguments of a call in mathematics: those since the last semicolon, the rows before
it, and the named ones. -/
structure ArgumentRows where
  row : List Node := []
  rows : List (List Node) := []
  named : List Node := []
  hasRows : Bool := false

namespace ArgumentRows

def add (rows : ArgumentRows) : Node → ArgumentRows
  | .named name expr place => { rows with named := rows.named ++ [.named name expr place] }
  | node => { rows with row := rows.row ++ [node] }

def endRow (rows : ArgumentRows) : ArgumentRows :=
  { rows with row := [], rows := rows.rows ++ [rows.row], hasRows := true }

def arrayOf? : List Node → Option Node
  | [] => none
  | first :: rest =>
      some (.array (first :: rest)
        { range := .cover first.range (rest.getLast?.getD first).range })

def items (rows : ArgumentRows) : List Node :=
  if rows.hasRows then (rows.rows ++ [rows.row]).filterMap arrayOf? ++ rows.named
  else rows.row ++ rows.named

end ArgumentRows

def argumentsFrom (found : ArgumentRows) : Nat → Reading ArgumentRows
  | 0 => return found
  | fuel + 1 => do
      let token ← Reading.current
      if token.kind = .rparen ∨ token.kind = .eof then return found
      else
        let found := found.add (← argument deeper)
        match (← Reading.current).kind with
        | .comma =>
            let _ ← Reading.advance
            argumentsFrom found fuel
        | .semicolon =>
            let _ ← Reading.advance
            argumentsFrom found.endRow fuel
        | _ => argumentsFrom found fuel

/-- Reads a call in mathematics. Commas separate arguments; a semicolon ends a row of them. -/
def mathCall : Reading Node := do
  let name ← Reading.advance
  let opening ← Reading.advance
  let found ← argumentsFrom deeper {} ((← Reading.remaining) + 1)
  let closing ←
    if ← Reading.isAt .rparen then Reading.advance
    else
      Reading.report .unclosedArguments opening.range
      Reading.current
  return .call (.mathIdent name.value { range := name.range }) found.items
    { range := .cover opening.range closing.range }
    { range := .cover name.range closing.range }

def contentBlock : Reading Node := do
  let opening ← Reading.advance
  let body ← sequence deeper [.rbracket]
  let closing ← Reading.expect .rbracket
  return .contentBlock body
    { range := .between opening.range.stop closing.range.start }
    { range := .cover opening.range closing.range }

def codeItem : Reading Node := do
  if ← Reading.isAt .dotDot then
    let dots ← Reading.advance
    let expr ← deeper (.expression 0)
    return .spread expr { range := .cover dots.range expr.range }
  else
    let expr ← deeper (.expression 0)
    if ← Reading.isAt .colon then
      let _ ← Reading.advance
      let value ← deeper (.expression 0)
      let place : Place := { range := .cover expr.range value.range }
      match expr with
      | .ident name _ => return .named name value place
      | key => return .keyed key value place
    else return expr

/-- Reads items separated by commas; the flag tells whether a comma came last. -/
def codeItemsFrom (found : List Node) (afterComma : Bool) : Nat → Reading (List Node × Bool)
  | 0 => return (found.reverse, afterComma)
  | fuel + 1 => do
      let token ← Reading.current
      if token.kind = .rparen ∨ token.kind = .eof then return (found.reverse, afterComma)
      else
        let item ← codeItem deeper
        if ← Reading.isAt .comma then
          let _ ← Reading.advance
          codeItemsFrom (item :: found) true fuel
        else return ((item :: found).reverse, false)

def codeItems : Reading (List Node × Bool) := do
  codeItemsFrom deeper [] false ((← Reading.remaining) + 1)

def isPair : Node → Bool
  | .named _ _ _ | .keyed _ _ _ => true
  | _ => false

def isSpread : Node → Bool
  | .spread _ _ => true
  | _ => false

/-- What the items of a group make: pairs a dictionary, a lone expression itself, anything
else an array. Items that fit no dictionary are reported and left out of it. -/
def groupOf (items : List Node) (afterComma : Bool) (place : Place) : Reading Node := do
  if items.any isPair then
    if items.all fun item => isPair item || isSpread item then pure ()
    else Reading.report .mixedItems place.range
    return .dict (items.filter fun item => isPair item || isSpread item) place
  else
    match items, afterComma with
    | [.spread expr spreadPlace], _ => return .array [.spread expr spreadPlace] place
    | [expr], false => return .parenthesized expr place
    | items, _ => return .array items place

def codeGroup : Reading Node := do
  let opening ← Reading.advance
  if ← Reading.isAt .rparen then
    let closing ← Reading.advance
    return .array [] { range := .cover opening.range closing.range }
  else if (← Reading.isAt .colon) && (← Reading.peek).kind = .rparen then
    let _ ← Reading.advance
    let closing ← Reading.advance
    return .dict [] { range := .cover opening.range closing.range }
  else
    let (items, afterComma) ← codeItems deeper
    let closing ← Reading.expect .rparen
    groupOf items afterComma { range := .cover opening.range closing.range }

def codeAtom : Reading Node := do
  let token ← Reading.current
  let place : Place := { range := token.range }
  match token.kind with
  | .ident =>
      let _ ← Reading.advance
      return .ident token.value place
  | .int =>
      let _ ← Reading.advance
      match Decimal.readInteger token.value with
      | .ok value => return .int value place
      | .error fault => Reading.interrupt (.number fault)
  | .float =>
      let _ ← Reading.advance
      match Decimal.readNumeral? token.value.toList with
      | some value => return .float value place
      | none => Reading.interrupt (.number (.decimalNumeral token.value))
  | .string =>
      let _ ← Reading.advance
      return .str token.value place
  | .bool =>
      let _ ← Reading.advance
      return .bool (token.value = "true") place
  | .none =>
      let _ ← Reading.advance
      return .noneLit place
  | .auto =>
      let _ ← Reading.advance
      return .autoLit place
  | .lparen => codeGroup deeper
  | .lbracket => contentBlock deeper
  | _ =>
      Reading.report (.notAnExpression token.kind token.value) token.range
      Reading.interrupt .recover

def codeTail (expr : Node) : Reading Node := do
  let token ← Reading.current
  let attached := expr.range.stop = token.range.start
  if token.kind = .lparen ∧ attached then deeper (.arguments expr)
  else if token.kind = .lbracket ∧ attached then deeper (.attachedBlock expr)
  else if token.kind = .dot then deeper (.field expr)
  else return expr

/-- An argument of a call in code. Only an identifier names an argument. -/
def codeArgument : Node → Reading Node
  | .keyed key expr _ => do
      Reading.report .invalidArgumentName key.range
      return expr
  | item => return item

def codeArgumentsFrom (found : List Node) : Nat → Reading (List Node)
  | 0 => return found.reverse
  | fuel + 1 => do
      let token ← Reading.current
      if token.kind = .rparen ∨ token.kind = .eof then return found.reverse
      else
        let item ← codeArgument (← codeItem deeper)
        if ← Reading.isAt .comma then
          let _ ← Reading.advance
          codeArgumentsFrom (item :: found) fuel
        else return (item :: found).reverse

/-- Reads blocks attached to the end of a call; they are further arguments of it. -/
def attachedBlocksFrom (found : List Node) (last : ByteRange) :
    Nat → Reading (List Node × ByteRange)
  | 0 => return (found.reverse, last)
  | fuel + 1 => do
      let token ← Reading.current
      if token.kind = .lbracket ∧ last.stop = token.range.start then
        let block ← contentBlock deeper
        attachedBlocksFrom (block :: found) block.range fuel
      else return (found.reverse, last)

def codeCall (callee : Node) : Reading Node := do
  let opening ← Reading.advance
  let items ← codeArgumentsFrom deeper [] ((← Reading.remaining) + 1)
  let closing ← Reading.expect .rparen
  let (blocks, last) ←
    attachedBlocksFrom deeper [] closing.range ((← Reading.remaining) + 1)
  return .call callee (items ++ blocks) { range := .cover opening.range last }
    { range := .cover callee.range last }

/-- Reads operators and their right operands while they bind at least so tightly. -/
def expressionFrom (power : Nat) (lhs : Node) : Reading Node := do
  match BinaryOp.ofKind? (← Reading.current).kind with
  | none => return lhs
  | some op =>
      if op.leftPower < power then return lhs
      else
        let mark ← Reading.advance
        deeper (.operand lhs op mark.range power)

def codeOperand : Reading Node := do
  let token ← Reading.current
  match UnaryOp.ofKind? token.kind with
  | some op =>
      let _ ← Reading.advance
      let expr ← deeper (.expression op.power)
      return .unary op expr { range := .cover token.range expr.range }
  | none => codeTail deeper (← codeAtom deeper)

def atom (stops : List TokenKind) : Reading Node := do
  let token ← Reading.current
  let place : Place := { range := token.range }
  let plain : Reading Node := do
    let _ ← Reading.advance
    return .text token.value place
  match token.kind with
  | .ident =>
      let next ← Reading.peek
      if next.kind = .lparen ∧ token.range.stop = next.range.start then mathCall deeper
      else
        let _ ← Reading.advance
        return .mathIdent token.value place
  | .shorthand =>
      let _ ← Reading.advance
      return .shorthand token.value (Token.symbolOf token.value) place
  | .string =>
      let _ ← Reading.advance
      return .str token.value place
  | .root =>
      let _ ← Reading.advance
      if ← Reading.endsSequence stops then
        Reading.report .missingRadicand token.range
        return .text token.value place
      else
        let radicand ← deeper (.atom stops)
        return .root (Token.degreeOf token.value) radicand
          { range := .cover token.range radicand.range }
  | .prime => .primes <$> primes
  | .amp =>
      let _ ← Reading.advance
      return .alignPoint place
  | .linebreak =>
      let _ ← Reading.advance
      return .linebreak place
  | .hash =>
      let _ ← Reading.advance
      codeTail deeper (← codeAtom deeper)
  | .lparen => delimited deeper .rparen
  | .lbracket => delimited deeper .rbracket
  | .lbrace => delimited deeper .rbrace
  | .bar => if ← hasClosingBar stops then delimited deeper .bar else plain
  | .hat | .underscore =>
      let _ ← Reading.advance
      Reading.report (.missingBase token.value) token.range
      Reading.interrupt .recover
  | _ => plain

/-- Reads a phrase whose phrases of the next level are read as given. -/
def body : Phrase → Reading Node
  | .atom stops => atom deeper stops
  | .script _ stops stop => attachment deeper stops stop
  | .denominator num _ stops => do
      let denom ← attachment deeper stops none
      fractionFrom deeper stops
        (.frac num denom { range := .cover num.range denom.range })
  | .arguments callee => do codeTail deeper (← codeCall deeper callee)
  | .attachedBlock callee => do
      let block ← contentBlock deeper
      codeTail deeper (.call callee [block] { range := block.range }
        { range := .cover callee.range block.range })
  | .field target => do
      let _ ← Reading.advance
      let name ← Reading.expect .ident
      codeTail deeper (.field target name.value
        { range := .cover target.range name.range })
  | .expression power => do expressionFrom deeper power (← codeOperand deeper)
  | .operand lhs op _ power => do
      let rhs ← deeper (.expression op.rightPower)
      expressionFrom deeper power
        (.binary lhs op rhs { range := .cover lhs.range rhs.range })

end

def phrase : Nat → Phrase → Reading Node
  | 0, phrase => fun cursor =>
      .error .tooDeep (cursor.report .parsedTooDeep (phrase.mark cursor))
  | levels + 1, phrase => body (Grammar.phrase levels) phrase

end Grammar

end EquationMap
