import EquationMap.CommandLine.Similar
import EquationMap.CommandLine.Switch
import EquationMap.Text.Quoted

namespace EquationMap.CommandLine

inductive UsageFault where
  | unknownSwitch (spelling : String) (similar : List String)
  | valueMissing (spelling : String)
  | valueUnexpected (spelling : String)
  | commandMissing
  | unknownCommand (name : String) (similar : List String)
  | extraArguments (words : List String)
  | badPath (switch : Switch) (reason path : String)
  deriving DecidableEq

namespace UsageFault

def suggestion (words : List String) : String :=
  match (words.mergeSort fun a b => a ≤ b).map Text.quoted with
  | [] => ""
  | [word] => " Did you mean " ++ word ++ "?"
  | words => " (Did you mean one of: " ++ ", ".intercalate words ++ "?)"

def message : UsageFault → String
  | unknownSwitch spelling similar =>
      "No such option " ++ Text.quoted spelling ++ "." ++ suggestion similar
  | valueMissing spelling => "Option " ++ Text.quoted spelling ++ " requires an argument."
  | valueUnexpected spelling => "Option " ++ Text.quoted spelling ++ " does not take a value."
  | commandMissing => "Missing command."
  | unknownCommand name similar =>
      "No such command " ++ Text.quoted name ++ "." ++ suggestion similar
  | extraArguments words =>
      "Got unexpected extra argument" ++ (if words.length = 1 then "" else "s") ++ " (" ++
        " ".intercalate words ++ ")"
  | badPath switch reason path =>
      "Invalid value for " ++
        " / ".intercalate (switch.spellings.map fun spelling => "'" ++ spelling ++ "'") ++
        ": File " ++ Text.quoted path ++ " " ++ reason ++ "."

/-- Whether a report of the fault starts with the usage. A switch with too few or too many
values is reported without it. -/
def showsUsage : UsageFault → Bool
  | valueMissing _ | valueUnexpected _ => false
  | _ => true

def report (fault : UsageFault) (level : Level) : String :=
  (if fault.showsUsage then
    level.usage ++ "\nTry '" ++ level.path ++ " --help' for help.\n\n"
  else "") ++ "Error: " ++ fault.message ++ "\n"

end UsageFault

/-- Switches with their values, and arguments, in the order given. A switch that takes no
value has an empty one. -/
structure Words where
  switches : List (Switch × String) := []
  arguments : List String := []
  deriving DecidableEq

namespace Words

def prepend (switches : List (Switch × String)) (words : Words) : Words :=
  { words with switches := switches ++ words.switches }

def has (words : Words) (switch : Switch) : Bool :=
  words.switches.any (·.1 = switch)

def value? (words : Words) (switch : Switch) : Option String :=
  (words.switches.reverse.find? (·.1 = switch)).map Prod.snd

def given (words : Words) : List Switch :=
  (words.switches.map Prod.fst).eraseDups

end Words

/-- The switches that a word spells; the last of them may wait for the next word. -/
structure Spelled where
  switches : List (Switch × String) := []
  waiting : Option (Switch × String) := none

def readLong (known : List Switch) (word : String) : Except UsageFault Spelled :=
  let spelling := String.ofList (word.toList.takeWhile (· ≠ '='))
  let value := word.toList.dropWhile (· ≠ '=')
  match known.find? fun switch => switch.long = spelling with
  | none => .error (.unknownSwitch spelling (similarWords spelling (known.map Switch.long)))
  | some switch =>
      match switch.takesValue, value with
      | true, [] => .ok { waiting := some (switch, spelling) }
      | true, _ :: value => .ok { switches := [(switch, String.ofList value)] }
      | false, [] => .ok { switches := [(switch, "")] }
      | false, _ :: _ => .error (.valueUnexpected spelling)

/-- Reads letters that spell a switch each; what follows a switch with a value is its value. -/
def readLetters (known : List Switch) : List Char → Except UsageFault Spelled
  | [] => .ok {}
  | letter :: rest =>
      match known.find? fun switch => switch.letter? = some letter with
      | none => .error (.unknownSwitch (Switch.short letter) [])
      | some switch =>
          match switch.takesValue, rest with
          | true, [] => .ok { waiting := some (switch, Switch.short letter) }
          | true, _ :: _ => .ok { switches := [(switch, String.ofList rest)] }
          | false, _ =>
              (readLetters known rest).map fun spelled =>
                { spelled with switches := (switch, "") :: spelled.switches }

/-- Divides words into switches and arguments. Two dashes alone end the switches, and so does
the first argument unless the level lets them intersperse. -/
def readWords (level : Level) : List String → Except UsageFault Words
  | [] => .ok {}
  | word :: rest =>
      if word = "--" then .ok { arguments := rest }
      else if word.startsWith "-" ∧ word ≠ "-" then
        let spelled :=
          if word.startsWith "--" then readLong level.switches word
          else readLetters level.switches (word.toList.drop 1)
        match spelled, rest with
        | .error fault, _ => .error fault
        | .ok ⟨switches, none⟩, rest => (readWords level rest).map (Words.prepend switches)
        | .ok ⟨switches, some (switch, _)⟩, value :: rest =>
            (readWords level rest).map (Words.prepend (switches ++ [(switch, value)]))
        | .ok ⟨_, some (_, spelling)⟩, [] => .error (.valueMissing spelling)
      else if level.isInterspersed then
        (readWords level rest).map fun words =>
          { words with arguments := word :: words.arguments }
      else .ok { arguments := word :: rest }

end EquationMap.CommandLine
