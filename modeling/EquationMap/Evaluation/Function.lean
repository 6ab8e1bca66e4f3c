import EquationMap.Evaluation.Arguments

namespace EquationMap.Builtin

open Arguments

def delimiterPairs : List (String × String × String) :=
  [("(", "(", ")"), ("[", "[", "]"), ("\x7b", "\x7b", "\x7d"), ("|", "|", "|"),
   ("||", "‖", "‖"), ("⟨", "⟨", "⟩")]

def delimiters (value : Value) : Taking (String × String) :=
  match value with
  | .none => return ("(", ")")
  | .str text =>
      match delimiterPairs.lookup text with
      | some pair => return pair
      | none => do failCall (.invalidDelimiter (← lift value.listing.toText))
  | _ => do failCall (.invalidDelimiter (← lift value.listing.toText))

def enclosed (opening closing : String) : Taking Content := do
  let body ← expectContent "body"
  finish
  let span ← callSpan
  return .lr (some (.plain opening span)) body (some (.plain closing span)) span

/-- The rows of a matrix: arrays are rows of their own, other arguments make up the last. -/
def matrixRows (arguments : List (Value × Span)) : List (List (Value × Span)) :=
  let rows := arguments.filterMap fun
    | (.array cells, span) => some (cells.map fun cell => (cell, span))
    | _ => none
  let loose := arguments.filter fun
    | (.array _, _) => false
    | _ => true
  if loose.isEmpty then rows else rows ++ [loose]

def operatorText : Value → Value
  | .content (.text written _ _ _) => .str written
  | value => value

def script (value : Value) (span : Span) : Except NumberFault (Option Content) :=
  match value with
  | .none => return none
  | value => some <$> value.display span

def apply : Builtin → Taking Content
  | frac => do
      let num ← expectContent "numerator"
      let denom ← expectContent "denominator"
      finish
      return .frac num denom (← callSpan)
  | sqrt => do
      let radicand ← expectContent "radicand"
      finish
      return .root none radicand (← callSpan)
  | root => do
      let index ← expectContent "index"
      let radicand ← expectContent "radicand"
      finish
      return .root (some index) radicand (← callSpan)
  | abs => enclosed "|" "|"
  | norm => enclosed "‖" "‖"
  | floor => enclosed "⌊" "⌋"
  | ceil => enclosed "⌈" "⌉"
  | lr => do
      let body ← expectContent "body"
      finish
      match body with
      | .lr opening inner closing span => return .lr opening inner closing span
      | body => return .lr none body none (← callSpan)
  | vec => do
      let delims ← delimiters (← takeNamed "delim" .none)
      let children ← allContent
      finish
      return .vec children delims (← callSpan)
  | mat => do
      let delims ← delimiters (← takeNamed "delim" .none)
      let rows ← lift ((matrixRows (← Arguments.all)).mapM displayAll)
      finish
      return .mat rows delims (← callSpan)
  | cases => do
      match ← takeNamed "delim" (.str "\x7b") with
      | .str delim =>
          let children ← allContent
          finish
          return .cases children delim (← callSpan)
      | other => failCall (.expectedString other.typeName)
  | binom => do
      let upper ← expectContent "upper"
      let lower ← expectContent "lower"
      finish
      return .binom upper lower (← callSpan)
  | attach => do
      let base ← expectContent "base"
      let top ← takeNamed "t" .none
      let bottom ← takeNamed "b" .none
      finish
      let span ← callSpan
      let top ← lift (script top span)
      let bottom ← lift (script bottom span)
      return .attach base top bottom none span
  | op => do
      let (text, _) ← expect "text"
      let limits ← takeNamed "limits" (.bool false)
      finish
      match operatorText text, limits with
      | .str written, .bool limits => return .op written limits (← callSpan)
      | .str _, other => failCall (.expectedBoolean other.typeName)
      | other, _ => failCall (.expectedString other.typeName)
  | upright => do
      let body ← expectContent "body"
      finish
      return .upright body (← callSpan)
  | overline => do
      let body ← expectContent "body"
      finish
      return .overline body (← callSpan)
  | underline => do
      let body ← expectContent "body"
      finish
      return .underline body (← callSpan)

def call (function : Builtin) (arguments : Arguments) : Except Halt Content :=
  match function.apply arguments with
  | .ok content _ => .ok content
  | .error halt _ => .error halt

end EquationMap.Builtin
