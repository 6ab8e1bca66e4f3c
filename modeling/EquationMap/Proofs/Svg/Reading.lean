import EquationMap.Svg.Element
import Mathlib.Data.List.Basic

namespace EquationMap.Markup

def unescape : List Char → List Char
  | '&' :: 'a' :: 'm' :: 'p' :: ';' :: rest => '&' :: unescape rest
  | '&' :: 'l' :: 't' :: ';' :: rest => '<' :: unescape rest
  | '&' :: 'g' :: 't' :: ';' :: rest => '>' :: unescape rest
  | '&' :: 'q' :: 'u' :: 'o' :: 't' :: ';' :: rest => '"' :: unescape rest
  | '&' :: '#' :: '1' :: '3' :: ';' :: rest => '\r' :: unescape rest
  | '&' :: '#' :: '1' :: '0' :: ';' :: rest => '\n' :: unescape rest
  | '&' :: '#' :: '0' :: '9' :: ';' :: rest => '\t' :: unescape rest
  | c :: rest => c :: unescape rest
  | [] => []

def isNamed (c : Char) : Bool :=
  c.isAlphanum || c = '-'

def readAttributes : Nat → List Char → List (String × String) × List Char
  | fuel + 1, ' ' :: rest =>
      match rest.takeWhile isNamed, rest.dropWhile isNamed with
      | c :: name, '=' :: '"' :: rest =>
          let value := rest.takeWhile (· ≠ '"')
          let (others, rest) := readAttributes fuel ((rest.dropWhile (· ≠ '"')).drop 1)
          ((String.ofList (c :: name), String.ofList (unescape value)) :: others, rest)
      | _, _ => ([], ' ' :: rest)
  | _, text => ([], text)

mutual

def readElement : Nat → List Char → Option (Markup × List Char)
  | fuel + 1, '<' :: rest =>
      let tag := rest.takeWhile isNamed
      let (attributes, rest) := readAttributes fuel (rest.dropWhile isNamed)
      match rest with
      | ' ' :: '/' :: '>' :: rest => some (element (String.ofList tag) attributes "" [], rest)
      | '>' :: rest =>
          let text := String.ofList (unescape (rest.takeWhile (· ≠ '<')))
          let (children, rest) := readElements fuel (rest.dropWhile (· ≠ '<'))
          (rest.dropPrefix? ('<' :: '/' :: tag ++ ['>'])).map fun rest =>
            (element (String.ofList tag) attributes text children, rest)
      | _ => none
  | _, _ => none

def readElements : Nat → List Char → List Markup × List Char
  | fuel + 1, text =>
      match readElement fuel text with
      | some (child, rest) =>
          let (others, rest) := readElements fuel rest
          (child :: others, rest)
      | none => ([], text)
  | 0, text => ([], text)

end

def isName (text : String) : Bool :=
  text.toList.all isNamed

/-- Whether all names in a document are names that can be read. -/
inductive Named : Markup → Prop
  | element {tag : String} {attributes : List (String × String)} {text : String}
      {children : List Markup} (tag_named : isName tag = true)
      (attributes_named : ∀ pair ∈ attributes, pair.1 ≠ "" ∧ isName pair.1 = true)
      (children_named : ∀ child ∈ children, child.Named) :
      Named (.element tag attributes text children)

section

variable {tag : String} {attributes : List (String × String)} {rest : List Char} {fuel : Nat}
  (tag_named : isName tag = true)
  (attributes_named : ∀ pair ∈ attributes, pair.1 ≠ "" ∧ isName pair.1 = true)
  (enough : attributes.length ≤ fuel)

include tag_named attributes_named enough

end

end EquationMap.Markup
