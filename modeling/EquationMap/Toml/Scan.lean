import EquationMap.Toml.Value

namespace EquationMap.Toml

/-- Reads from the head of a text and leaves the rest, or fails. -/
abbrev Scan := StateT (List Char) Option

def isSpace (c : Char) : Bool :=
  c == ' ' || c == '\t'

def isSpaceOrBreak (c : Char) : Bool :=
  isSpace c || c == '\n'

def isControl (c : Char) : Bool :=
  c.toNat < 0x20 || c.toNat == 0x7F

def isStray (c : Char) : Bool :=
  isControl c && c != '\t'

def isStrayInLines (c : Char) : Bool :=
  isStray c && c != '\n'

def isHexDigit (c : Char) : Bool :=
  c.isDigit || ('a' ≤ c && c ≤ 'f') || ('A' ≤ c && c ≤ 'F')

def hexDigitValue (c : Char) : Nat :=
  if c.isDigit then c.toNat - 48 else if c.toNat < 0x61 then c.toNat - 55 else c.toNat - 87

def spelledNumber (base : Nat) (digits : List Char) : Nat :=
  digits.foldl (fun number digit => base * number + hexDigitValue digit) 0

def dropSpaces : Scan Unit :=
  modify (List.dropWhile isSpace)

def comment : Scan Unit := fun text =>
  match text with
  | '#' :: rest =>
      if (rest.takeWhile (· != '\n')).any isStray then none
      else some ((), rest.dropWhile (· != '\n'))
  | text => some ((), text)

def dropLines : Nat → Scan Unit
  | 0 => pure ()
  | fuel + 1 => do
      modify (List.dropWhile isSpaceOrBreak)
      comment
      match ← get with
      | '\n' :: _ => dropLines fuel
      | _ => pure ()

namespace Text

def upTo (mark : List Char) (isBad : Char → Bool) :
    List Char → Option (List Char × List Char)
  | [] => none
  | c :: rest =>
      if mark.isPrefixOf (c :: rest) then some ([], (c :: rest).drop mark.length)
      else if isBad c then none
      else (upTo mark isBad rest).map fun (text, rest) => (c :: text, rest)

def numbered (count : Nat) (text : List Char) : Option (List Char × List Char) :=
  let digits := text.take count
  let number := spelledNumber 16 digits
  if digits.length = count ∧ digits.all isHexDigit ∧ number.isValidChar then
    some ([Char.ofNat number], text.drop count)
  else none

def foldedBreak (text : List Char) : Option (List Char × List Char) :=
  match text.dropWhile isSpace with
  | [] => some ([], [])
  | '\n' :: rest => some ([], rest.dropWhile isSpaceOrBreak)
  | _ => none

def escape (lines : Bool) : List Char → Option (List Char × List Char)
  | 'b' :: rest => some (['\x08'], rest)
  | 't' :: rest => some (['\t'], rest)
  | 'n' :: rest => some (['\n'], rest)
  | 'f' :: rest => some (['\x0c'], rest)
  | 'r' :: rest => some (['\r'], rest)
  | '"' :: rest => some (['"'], rest)
  | '\\' :: rest => some (['\\'], rest)
  | 'u' :: rest => numbered 4 rest
  | 'U' :: rest => numbered 8 rest
  | c :: rest => if lines && isSpaceOrBreak c then foldedBreak (c :: rest) else none
  | [] => none

def basic (lines : Bool) : Nat → List Char → Option (List Char × List Char)
  | fuel + 1, '"' :: rest =>
      if !lines then some ([], rest)
      else
        match rest with
        | '"' :: '"' :: rest => some ([], rest)
        | rest => (basic lines fuel rest).map fun (text, rest) => ('"' :: text, rest)
  | fuel + 1, '\\' :: rest =>
      (escape lines rest).bind fun (meant, rest) =>
        (basic lines fuel rest).map fun (text, rest) => (meant ++ text, rest)
  | fuel + 1, c :: rest =>
      if (if lines then isStrayInLines c else isStray c) then none
      else (basic lines fuel rest).map fun (text, rest) => (c :: text, rest)
  | _, _ => none

/-- Up to two closing quotes more belong to a text of several lines. -/
def closingQuotes (quote : Char) (text rest : List Char) : List Char × List Char :=
  match rest with
  | first :: second :: rest' =>
      if first = quote ∧ second = quote then (text ++ [quote, quote], rest')
      else if first = quote then (text ++ [quote], second :: rest')
      else (text, rest)
  | [first] => if first = quote then (text ++ [quote], []) else (text, rest)
  | [] => (text, rest)

def dropBreak : List Char → List Char
  | '\n' :: rest => rest
  | text => text

end Text

def lineText : Scan String := fun text =>
  match text with
  | '"' :: rest =>
      (Text.basic false (rest.length + 1) rest).map fun (text, rest) =>
        (String.ofList text, rest)
  | '\'' :: rest =>
      (Text.upTo ['\''] isStray rest).map fun (text, rest) => (String.ofList text, rest)
  | _ => none

def quotedText : Scan String := fun text =>
  match text with
  | '"' :: '"' :: '"' :: rest =>
      (Text.basic true (rest.length + 1) (Text.dropBreak rest)).map fun (text, rest) =>
        let (text, rest) := Text.closingQuotes '"' text rest
        (String.ofList text, rest)
  | '\'' :: '\'' :: '\'' :: rest =>
      (Text.upTo ['\'', '\'', '\''] isStrayInLines (Text.dropBreak rest)).map
        fun (text, rest) =>
          let (text, rest) := Text.closingQuotes '\'' text rest
          (String.ofList text, rest)
  | _ => lineText text

def moreDigits (isDigit : Char → Bool) : List Char → List Char × List Char
  | '_' :: c :: rest =>
      if isDigit c then
        let (digits, rest) := moreDigits isDigit rest
        (c :: digits, rest)
      else ([], '_' :: c :: rest)
  | c :: rest =>
      if isDigit c then
        let (digits, rest) := moreDigits isDigit rest
        (c :: digits, rest)
      else ([], c :: rest)
  | [] => ([], [])

def digits (isDigit : Char → Bool) : Scan (List Char) := fun text =>
  match text with
  | c :: rest =>
      if isDigit c then
        let (digits, rest) := moreDigits isDigit rest
        some (c :: digits, rest)
      else none
  | [] => none

def possibly (scan : Scan α) : Scan (Option α) := fun text =>
  match scan text with
  | some (value, rest) => some (some value, rest)
  | none => some (none, text)

def firstOf (scans : List (Scan α)) : Scan α := fun text =>
  scans.findSome? fun scan => scan text

def oneOf (chars : List Char) : Scan Char := fun text =>
  match text with
  | c :: rest => if chars.contains c then some (c, rest) else none
  | [] => none

def word (word : String) : Scan Unit := fun text =>
  if word.toList.isPrefixOf text then some ((), text.drop word.length) else none

def written (scan : Scan α) : Scan (α × String) := fun text =>
  (scan text).map fun (value, rest) =>
    ((value, String.ofList (text.take (text.length - rest.length))), rest)

def basedInteger : Scan Value :=
  let based (mark : String) (base : Nat) (isDigit : Char → Bool) : Scan Value := do
    word mark
    return .integer (spelledNumber base (← digits isDigit))
  firstOf
    [based "0x" 16 isHexDigit, based "0b" 2 fun c => c == '0' || c == '1',
     based "0o" 8 fun c => '0' ≤ c && c ≤ '7']

/-- An integer part: a lone zero, or digits that start with another one. -/
def wholePart : Scan (List Char) := fun text =>
  match text with
  | '0' :: rest => some (['0'], rest)
  | text => digits Char.isDigit text

def decimalPart : Scan Unit := do
  let fraction ← possibly (do word "."; digits Char.isDigit)
  let exponent ← possibly (do
    let _ ← oneOf ['e', 'E']
    let _ ← possibly (oneOf ['+', '-'])
    digits Char.isDigit)
  if fraction.isNone && exponent.isNone then failure

def number : Scan Value := do
  let ((value, decimal), written) ← written (do
    let sign ← possibly (oneOf ['+', '-'])
    let number := spelledNumber 10 (← wholePart)
    let decimal ← possibly decimalPart
    return ((if sign = some '-' then -(number : Int) else number), decimal))
  return if decimal.isSome then .decimal written else .integer value

def specialNumber : Scan Value := do
  let (_, written) ← written (do
    let _ ← possibly (oneOf ['+', '-'])
    firstOf [word "inf", word "nan"])
  return .decimal written

def bounded (count least greatest : Nat) : Scan Nat := fun text =>
  let digits := text.take count
  let number := spelledNumber 10 digits
  if digits.length = count ∧ digits.all Char.isDigit ∧ least ≤ number ∧ number ≤ greatest then
    some (number, text.drop count)
  else none

def isLeapYear (year : Nat) : Bool :=
  year % 4 == 0 && (year % 100 != 0 || year % 400 == 0)

def monthLength (year month : Nat) : Nat :=
  if month = 2 then (if isLeapYear year then 29 else 28)
  else if [4, 6, 9, 11].contains month then 30
  else 31

def date : Scan Unit := do
  let year ← bounded 4 1 9999
  word "-"
  let month ← bounded 2 1 12
  word "-"
  let _ ← bounded 2 1 (monthLength year month)

def time : Scan Unit := do
  let _ ← bounded 2 0 23
  word ":"
  let _ ← bounded 2 0 59
  word ":"
  let _ ← bounded 2 0 59
  let _ ← possibly (do
    word "."
    let _ ← bounded 1 0 9
    modify (List.dropWhile Char.isDigit))

def zone : Scan Unit :=
  firstOf
    [do let _ ← oneOf ['Z', 'z'],
     do
      let _ ← oneOf ['+', '-']
      let _ ← bounded 2 0 23
      word ":"
      let _ ← bounded 2 0 59]

def moment : Scan Value :=
  let dated : Scan MomentKind := do
    date
    let timed ← possibly (do
      let _ ← oneOf ['T', 't', ' ']
      time
      possibly zone)
    return if timed.isSome then .dateTime else .date
  do
    let (kind, written) ← written (firstOf [dated, do time; return .time])
    return .moment kind written

def truth : Scan Value :=
  firstOf [do word "true"; return .truth true, do word "false"; return .truth false]

def simpleValue : Scan Value :=
  firstOf
    [do return .text (← quotedText), truth, moment, basedInteger, number, specialNumber]

def isKeyChar (c : Char) : Bool :=
  c.isAlphanum || c == '-' || c == '_'

def keyPart : Scan String := fun text =>
  match text with
  | c :: _ =>
      if isKeyChar c then
        some (String.ofList (text.takeWhile isKeyChar), text.dropWhile isKeyChar)
      else lineText text
  | [] => none

/-- The parts of a dotted key of at most the given number, and the blanks behind it. -/
def keyParts : Nat → Scan (List String)
  | 0 => failure
  | fuel + 1 => do
      let part ← keyPart
      dropSpaces
      match ← possibly (word ".") with
      | none => return [part]
      | some () =>
          dropSpaces
          return part :: (← keyParts fuel)

def key : Scan (List String) := do
  keyParts ((← get).length + 1)

end EquationMap.Toml
