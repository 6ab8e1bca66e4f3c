import EquationMap.Syntax.Fault
import EquationMap.Syntax.Lexeme
import EquationMap.Text.Utf8

namespace EquationMap

/-! Dividing a text into tokens. A hash sign embeds one expression of code, whose groups
nest blocks of mathematics and so on; the contexts that are still open form a stack. -/

/-- What encloses the place that is read. -/
inductive LexContext where
  | trailing
  | group (start : Nat)
  /-- In a block of mathematics, with so many square brackets of its own open. -/
  | block (start : Nat) (brackets : Nat)
  deriving DecidableEq

def LexContext.nests : LexContext → Bool
  | trailing => false
  | group _ | block _ _ => true

/-- What is left to read, where it starts, and what was found so far, latest first. -/
structure Lexer where
  rest : List Char
  offset : Nat
  contexts : List LexContext
  tokens : List Token
  errors : List SyntaxError

namespace Lexer

inductive Progress where
  | going (next : Lexer)
  | finished (last : Lexer)
  | abandoned (last : Lexer)

def start (text : List Char) : Lexer :=
  ⟨text, 0, [], [], []⟩

def skip (lexer : Lexer) (piece : List Char) : Lexer :=
  { lexer with
    rest := lexer.rest.drop piece.length
    offset := lexer.offset + Text.byteLength piece }

def skipBlanks (lexer : Lexer) : Lexer :=
  lexer.skip (lexer.rest.takeWhile Text.isBlank)

def emit (lexer : Lexer) (lexeme : Lexeme) : Lexer :=
  let range := ByteRange.ofLength lexer.offset (Text.byteLength lexeme.source)
  { lexer.skip lexeme.source with
    tokens := ⟨lexeme.kind, lexeme.value, range⟩ :: lexer.tokens }

def emitChar (lexer : Lexer) (kind : TokenKind) (c : Char) : Lexer :=
  lexer.emit (.plain kind [c])

def report (lexer : Lexer) (fault : SyntaxFault) (start : Nat) : Lexer :=
  { lexer with errors := ⟨fault, .between start lexer.offset⟩ :: lexer.errors }

def leave (lexer : Lexer) : Lexer :=
  { lexer with contexts := lexer.contexts.tail }

def enter (lexer : Lexer) (context : LexContext) : Lexer :=
  { lexer with contexts := context :: lexer.contexts }

/-- Reads an opening mark and enters the context it opens, unless that nests too deeply. -/
def openWith (lexer : Lexer) (kind : TokenKind) (c : Char) (context : LexContext) : Progress :=
  let inner := (lexer.emitChar kind c).enter context
  if maxNesting < inner.contexts.countP LexContext.nests then
    .abandoned (inner.report .nestedTooDeep lexer.offset)
  else .going inner

def openGroup (lexer : Lexer) : Progress :=
  lexer.openWith .lparen '(' (.group lexer.offset)

def openBlock (lexer : Lexer) : Progress :=
  lexer.openWith .lbracket '[' (.block lexer.offset 0)

def readString (lexer : Lexer) (afterQuote : List Char) : Lexer :=
  let tail := Lexeme.stringTail afterQuote
  let next := lexer.emit ⟨.string, String.ofList tail.contents, '"' :: tail.source⟩
  if tail.closed then next else next.report .unclosedString lexer.offset

def countBracket (kind : TokenKind) (contexts : List LexContext) : List LexContext :=
  match contexts, kind with
  | .block start brackets :: outer, .lbracket => .block start (brackets + 1) :: outer
  | .block start brackets :: outer, .rbracket => .block start (brackets - 1) :: outer
  | _, _ => contexts

def emitMath (lexer : Lexer) (lexeme : Lexeme) : Lexer :=
  let next := lexer.emit lexeme
  { next with contexts := countBracket lexeme.kind next.contexts }

def embedded (lexer : Lexer) : Progress :=
  let inside := lexer.enter .trailing
  let missing := Progress.going (lexer.report .missingEmbedded (lexer.offset - 1))
  match lexer.rest with
  | [] => missing
  | c :: rest =>
      if startsName c then .going (inside.emit (.codeWord lexer.rest))
      else if Text.isDigit c then .going (inside.emit (.codeNumber lexer.rest))
      else if c = '"' then .going (inside.readString rest)
      else if c = '(' then inside.openGroup
      else if c = '[' then inside.openBlock
      else missing

def mathToken (lexer : Lexer) (c : Char) (rest : List Char) : Progress :=
  if c = '#' then (lexer.emitChar .hash c).embedded
  else if c = '"' then .going (lexer.readString rest)
  else if c = '\\' then .going (lexer.emit (.backslash rest))
  else if Text.isDigit c then .going (lexer.emit (.plain .text (Lexeme.numberSource lexer.rest).1))
  else if Text.isLetter c then .going (lexer.emit (.word lexer.rest))
  else .going (lexer.emitMath (.mark c rest))

def codeToken (lexer : Lexer) (c : Char) (rest : List Char) : Progress :=
  if c = ')' then .going (lexer.emitChar .rparen c).leave
  else if c = '(' then lexer.openGroup
  else if c = '[' then lexer.openBlock
  else if startsName c then .going (lexer.emit (.codeWord lexer.rest))
  else if Text.isDigit c then .going (lexer.emit (.codeNumber lexer.rest))
  else if c = '"' then .going (lexer.readString rest)
  else
    match Lexeme.codeMark? lexer.rest with
    | some lexeme => .going (lexer.emit lexeme)
    | none => .going ((lexer.skip [c]).report (.strayInCode c) lexer.offset)

def trailingToken (lexer : Lexer) : Progress :=
  match lexer.rest with
  | '(' :: _ => lexer.openGroup
  | '[' :: _ => lexer.openBlock
  | '.' :: c :: rest =>
      if startsName c then .going ((lexer.emitChar .dot '.').emit (.codeWord (c :: rest)))
      else .going lexer.leave
  | _ => .going lexer.leave

def step (lexer : Lexer) : Progress :=
  match lexer.contexts with
  | [] =>
      let here := lexer.skipBlanks
      match here.rest with
      | [] => .finished here
      | c :: rest => here.mathToken c rest
  | .trailing :: _ => lexer.trailingToken
  | .group start :: _ =>
      let here := lexer.skipBlanks
      match here.rest with
      | [] => .going (here.report .unclosedGroup start).leave
      | c :: rest => here.codeToken c rest
  | .block start brackets :: _ =>
      let here := lexer.skipBlanks
      match here.rest with
      | [] => .going (here.report .unclosedBlock start).leave
      | c :: rest =>
          if brackets = 0 ∧ c = ']' then .going (here.emitChar .rbracket c).leave
          else here.mathToken c rest

def run : Nat → Lexer → Progress
  | 0, lexer => .going lexer
  | fuel + 1, lexer =>
      match lexer.step with
      | .going next => run fuel next
      | .finished last => .finished last
      | .abandoned last => .abandoned last

def result (lexer : Lexer) : Except (List SyntaxError) TokenList :=
  if lexer.errors.isEmpty then
    .ok ⟨lexer.tokens.reverse, ⟨.eof, "", .empty lexer.offset⟩⟩
  else .error lexer.errors.reverse

end Lexer

/-- The tokens of a text, or all its faults. A step reads a character or leaves a context, and
it opens no more contexts than it reads characters, so the steps granted suffice. -/
def tokenize (text : String) : Except (List SyntaxError) TokenList :=
  let characters := text.toList
  match Lexer.run (2 * characters.length + 1) (.start characters) with
  | .finished last => last.result
  | .going last | .abandoned last => .error last.errors.reverse

end EquationMap
