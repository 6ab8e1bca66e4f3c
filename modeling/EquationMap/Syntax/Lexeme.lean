import EquationMap.Syntax.Token
import EquationMap.Text.Blank
import EquationMap.Text.Numeral

namespace EquationMap

/-! The longest lexeme at the head of a text. A lexeme is a piece of the text as written
together with the token that it makes. -/

structure Lexeme where
  kind : TokenKind
  value : String
  source : List Char

namespace Lexeme

def plain (kind : TokenKind) (source : List Char) : Lexeme :=
  ⟨kind, String.ofList source, source⟩

def numberSource (text : List Char) : List Char × Bool :=
  let whole := text.takeWhile Text.isDigit
  match text.dropWhile Text.isDigit with
  | '.' :: rest =>
      let fraction := rest.takeWhile Text.isDigit
      if fraction.isEmpty then (whole, false) else (whole ++ '.' :: fraction, true)
  | _ => (whole, false)

def dottedSource : List Char → List Char
  | [] => []
  | c :: rest =>
      if Text.isLetter c then c :: dottedSource rest
      else if c = '.' ∧ rest.head?.any Text.isLetter then c :: dottedSource rest
      else []

/-- The contents of a string after its opening quote, the source they are written in, and
whether a closing quote ends it. -/
structure StringTail where
  contents : List Char
  source : List Char
  closed : Bool

def unescaped (c : Char) : Char :=
  if c = 'n' then '\n' else if c = 't' then '\t' else c

def stringTail : List Char → StringTail
  | [] => ⟨[], [], false⟩
  | '\\' :: c :: rest =>
      let tail := stringTail rest
      ⟨unescaped c :: tail.contents, '\\' :: c :: tail.source, tail.closed⟩
  | c :: rest =>
      if c = '"' then ⟨[], ['"'], true⟩
      else
        let tail := stringTail rest
        ⟨c :: tail.contents, c :: tail.source, tail.closed⟩

def leadingMark? (text : List Char) : List (String × α) → Option (String × α)
  | [] => none
  | (mark, meaning) :: rest =>
      if mark.toList.isPrefixOf text then some (mark, meaning) else leadingMark? text rest

/-- A lone letter is text; a run of letters is an identifier, which may go on with further
names after dots. -/
def word (text : List Char) : Lexeme :=
  let letters := text.takeWhile Text.isLetter
  if letters.length = 1 then plain .text letters else plain .ident (dottedSource text)

/-- A mark of mathematics: a root sign, a shorthand, a special character or plain text. -/
def mark (c : Char) (rest : List Char) : Lexeme :=
  if Token.isRootSign c then plain .root [c]
  else
    match leadingMark? (c :: rest) Token.shorthands with
    | some (shorthand, _) => plain .shorthand shorthand.toList
    | none => plain ((Token.mathMarks.lookup c).getD .text) [c]

/-- A backslash at a blank or at the end breaks the line; elsewhere it escapes a character. -/
def backslash : List Char → Lexeme
  | [] => ⟨.linebreak, "\\", ['\\']⟩
  | c :: _ =>
      if Text.isBlank c then ⟨.linebreak, "\\", ['\\']⟩
      else ⟨.escape, String.ofList [c], ['\\', c]⟩

def codeWord (text : List Char) : Lexeme :=
  let source := text.takeWhile Text.isWordChar
  let value := String.ofList source
  ⟨(Token.keywords.lookup value).getD .ident, value, source⟩

def codeNumber (text : List Char) : Lexeme :=
  let (source, fractional) := numberSource text
  plain (if fractional then .float else .int) source

def codeMark? (text : List Char) : Option Lexeme :=
  (leadingMark? text Token.codeMarks).map fun (mark, kind) => plain kind mark.toList

end Lexeme

def startsName (c : Char) : Bool :=
  Text.isLetter c || c == '_'

end EquationMap
