import EquationMap.Highlight.Category
import EquationMap.Text.Blank
import EquationMap.Text.Lines
import EquationMap.Text.Numeral

namespace EquationMap.Highlight

/-! A formula divided into coloured pieces. The division is coarser than that into tokens and
never fails. -/

structure Piece where
  category : Category
  text : List Char
  deriving DecidableEq

inductive Mode where
  | formula | quoted
  deriving DecidableEq

structure Step where
  pieces : List Piece
  rest : List Char
  mode : Mode

def Step.take (category : Category) (count : Nat) (text : List Char)
    (mode : Mode := .formula) : Step :=
  ⟨[⟨category, text.take count⟩], text.drop count, mode⟩

def isWordStart (c : Char) : Bool :=
  c.isAlpha || c == '_'

def isWordPart (c : Char) : Bool :=
  c.isAlphanum || c == '_'

def runLength (inClass : Char → Bool) (text : List Char) : Nat :=
  (text.takeWhile inClass).length

def constants : List String := ["true", "false", "none", "auto"]

/-- A constant at the head that does not run on into a longer word. -/
def constant? (text : List Char) : Option String :=
  constants.find? fun word =>
    word.toList.isPrefixOf text &&
      !((text.drop word.length).head?.any Text.isWordChar)

def shorthands : List String :=
  ["-->", "<--", "==>", "<==", "<->", "<=>", "|->", "|=>", "->", "<-", "=>", "<=", ">=", "!=",
   ":=", "<<", ">>", "~~", "..."]

def shorthand? (text : List Char) : Option String :=
  shorthands.find? fun shorthand => shorthand.toList.isPrefixOf text

def operators : List Char := "^_/'&+-*=<>√∛∜".toList

def punctuation : List Char := "()[]\x7b\x7d|,;:".toList

def numberLength (text : List Char) : Nat :=
  let whole := runLength Char.isDigit text
  match text.drop whole with
  | '.' :: rest =>
      let fraction := runLength Char.isDigit rest
      if fraction = 0 then whole else whole + 1 + fraction
  | _ => whole

/-- The length of the fields at the head of a text of at most the given length: a dot and
letters, any number of times. -/
def fieldsLength : Nat → List Char → Nat
  | fuel + 1, '.' :: rest =>
      let field := runLength Char.isAlpha rest
      if field = 0 then 0 else 1 + field + fieldsLength fuel (rest.drop field)
  | _, _ => 0

/-- The piece of a word: a letter alone, or a name with its fields, which
is that of a function if a parenthesis follows. -/
def wordStep (text : List Char) : Step :=
  let letters := runLength Char.isAlpha text
  if letters = 1 then .take .letter 1 text
  else
    let length := letters + fieldsLength text.length (text.drop letters)
    match text.drop length with
    | '(' :: _ => .take .functionName length text
    | _ => .take .constantName length text

def embeddedStep (rest : List Char) : Step :=
  let hash : Piece := ⟨.punctuation, ['#']⟩
  match constant? rest with
  | some word => ⟨[hash, ⟨.keyword, word.toList⟩], rest.drop word.length, .formula⟩
  | none =>
      if rest.head?.any isWordStart then
        ⟨[hash, ⟨.functionName, rest.takeWhile isWordPart⟩], rest.dropWhile isWordPart, .formula⟩
      else ⟨[hash], rest, .formula⟩

def formulaStep (c : Char) (rest : List Char) : Step :=
  let text := c :: rest
  if Text.isBlank c then .take .blank (runLength Text.isBlank text) text
  else if c = '"' then .take .string 1 text .quoted
  else if c = '#' then embeddedStep rest
  else if c = '\\' then
    if rest.head?.any fun next => !Text.isBlank next then .take .escape 2 text
    else .take .punctuation 1 text
  else if c.isDigit then .take .number (numberLength text) text
  else if c.isAlpha then wordStep text
  else
    match shorthand? text with
    | some shorthand => .take .operator shorthand.length text
    | none =>
        if operators.contains c then .take .operator 1 text
        else if punctuation.contains c then .take .punctuation 1 text
        else .take .plain 1 text

/-- The piece at the head of quoted text. A backslash before the end of a line escapes
nothing. -/
def quotedStep (c : Char) (rest : List Char) : Step :=
  let text := c :: rest
  if c = '"' then .take .string 1 text
  else if c = '\\' then
    if rest.head?.any (· ≠ '\n') then .take .escape 2 text .quoted
    else .take .error 1 text .quoted
  else .take .string (runLength (fun c => c ≠ '"' && c ≠ '\\') text) text .quoted

def Mode.step : Mode → Char → List Char → Step
  | formula => formulaStep
  | quoted => quotedStep

def scan : Nat → Mode → List Char → List Piece
  | fuel + 1, mode, c :: rest =>
      let step := mode.step c rest
      step.pieces ++ scan fuel step.mode step.rest
  | _, _, _ => []

/-- Drops a byte order mark at the head and line feeds at both ends, and ends the text with
one. -/
def prepare (text : List Char) : List Char :=
  let text := match text with
    | '\uFEFF' :: rest => rest
    | text => text
  let text := (Text.unifyLineEnds text).dropWhile (· = '\n')
  (text.reverse.dropWhile (· = '\n')).reverse ++ ['\n']

def pieces (text : String) : List Piece :=
  let prepared := prepare text.toList
  scan prepared.length .formula prepared

end EquationMap.Highlight
