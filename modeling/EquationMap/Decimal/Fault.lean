import EquationMap.Text.Quoted

namespace EquationMap

/-- How many digits an integer may have to be read or written. -/
def Decimal.digitLimit : Nat := 4300

/-- Numbers that have no value, no text or no machine form, and ranges that none have. -/
inductive NumberFault where
  | integerNumeral (text : String)
  | decimalNumeral (text : String)
  | numeralTooLong (digits : Nat)
  | integerTooLong
  | integerTooLarge
  | quotientTooLarge
  | countTooLarge
  | repetitionTooLong
  | outOfMemory
  | invalidRange (start stop : Int)
  deriving DecidableEq

namespace NumberFault

def excerpt (text : String) : String :=
  String.ofList ((Text.quoted text).toList.take 200)

def digitsExceeded (found : String) : String :=
  "Exceeds the limit (" ++ toString Decimal.digitLimit ++
    " digits) for integer string conversion" ++ found ++
    "; use sys.set_int_max_str_digits() to increase the limit"

/-- An integer numeral is shown in part if it is long, a decimal one always in full. -/
def message : NumberFault → String
  | integerNumeral text => "invalid literal for int() with base 10: " ++ excerpt text
  | decimalNumeral text => "could not convert string to float: " ++ Text.quoted text
  | numeralTooLong digits => digitsExceeded (": value has " ++ toString digits ++ " digits")
  | integerTooLong => digitsExceeded ""
  | integerTooLarge => "int too large to convert to float"
  | quotientTooLarge => "integer division result too large for a float"
  | countTooLarge => "cannot fit 'int' into an index-sized integer"
  | repetitionTooLong => "repeated string is too long"
  | outOfMemory => ""
  | invalidRange start stop =>
      "invalid byte range [" ++ toString start ++ ", " ++ toString stop ++ ")"

end NumberFault

end EquationMap
