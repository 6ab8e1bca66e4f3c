import EquationMap.Text.Hexadecimal
import EquationMap.Text.Printable

namespace EquationMap.Text

/-! Quoted text, as it appears in messages. Single quotes enclose the text unless it holds
single quotes and no double quotes; the enclosing quote and the backslash are escaped, and
unprintable characters are spelled by number. -/

namespace Quoted

def mark (text : List Char) : Char :=
  if text.contains '\'' && !text.contains '"' then '"' else '\''

def spelled (c : Char) : List Char :=
  let code := c.toNat
  if code < 0x100 then '\\' :: 'x' :: hexadecimal 2 code
  else if code < 0x10000 then '\\' :: 'u' :: hexadecimal 4 code
  else '\\' :: 'U' :: hexadecimal 8 code

def escaped (mark c : Char) : List Char :=
  if c = mark ∨ c = '\\' then ['\\', c]
  else if c = '\n' then ['\\', 'n']
  else if c = '\r' then ['\\', 'r']
  else if c = '\t' then ['\\', 't']
  else if isPrintable c then [c]
  else spelled c

end Quoted

def quoted (text : String) : String :=
  let mark := Quoted.mark text.toList
  String.ofList (mark :: text.toList.flatMap (Quoted.escaped mark) ++ [mark])

end EquationMap.Text
