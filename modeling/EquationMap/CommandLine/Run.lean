import EquationMap.CommandLine.Display
import EquationMap.CommandLine.Help
import EquationMap.CommandLine.Words
import EquationMap.Journal
import EquationMap.Settings.Lookup
import EquationMap.Source.Report
import EquationMap.Text.Lines

namespace EquationMap.CommandLine

inductive RunFault where
  | load (fault : LoadFault)
  | file (fault : FileFault)
  | broken (breakdown : Breakdown)

def RunFault.message : RunFault → String
  | load fault => fault.message
  | file fault => fault.message
  | broken breakdown => breakdown.message

inductive Stop where
  | exit (code : Nat)
  | fault (fault : RunFault)

abbrev Run (m : Type → Type) := ExceptT Stop m

variable {m : Type → Type} [Monad m] [Host m]

def printLine (text : String) : Run m Unit := Host.print (m := m) (text ++ "\n")

def warnLine (text : String) : Run m Unit := Host.warn (m := m) (text ++ "\n")

def exit (code : Nat) : Run m α := throw (.exit code)

def refuseUsage (level : Level) (fault : UsageFault) : Run m α := do
  Host.warn (m := m) (fault.report level)
  exit 2

/-- Reads words for a level. If they ask for the version or for help, the first thing they
ask for is printed and the run ends. -/
def understand (level : Level) (words : List String) : Run m Words := do
  match readWords level words with
  | .error fault => refuseUsage level fault
  | .ok words =>
      match words.given.find? fun switch => switch = .version || switch = .help with
      | none => return words
      | some switch => do
          printLine (if switch = .version then programVersion else level.help)
          exit 0

/-- What the commands share: the settings, whether steps are logged, and the words given. -/
structure Context where
  command : Command
  settings : Settings
  verbose : Bool
  words : Words

namespace Context

def level (context : Context) : Level := .command context.command

/-- Checks the value of a switch: a file to be read has to be there, and no file is a
directory. -/
def checkPath (context : Context) (switch : Switch) : Run m Unit := do
  match context.words.value? switch with
  | none => return
  | some path =>
      match (← Host.find (m := m) path), switch with
      | .directory, _ => refuseUsage context.level (.badPath switch "is a directory" path)
      | .missing, .file | .blocked, .file | .tooLong, .file =>
          refuseUsage context.level (.badPath switch "does not exist" path)
      | .unnamable, _ => throw (.fault (.file .unnamable))
      | _, _ => return

def checkPaths (context : Context) : List Switch → Run m Unit
  | [] => return
  | switch :: rest => do
      if switch.takesValue then context.checkPath switch
      context.checkPaths rest

def checkArguments (context : Context) : Run m Unit := do
  let extra := context.words.arguments.drop (if context.command.takesFormula then 1 else 0)
  if extra ≠ [] then refuseUsage context.level (.extraArguments extra)

/-- The formula and what reports call it: that of the file given, or else the argument, or
else what the input stream holds. -/
def formula (context : Context) : Run m (String × String) := do
  match context.words.value? .file, context.words.arguments with
  | some path, _ =>
      match (← Host.find (m := m) path).content (Path.shown path) with
      | .error fault => throw (.fault (.file fault))
      | .ok text => return (String.ofList (Text.unifyLineEnds text.toList), path)
  | none, text :: _ => return (text, "<expr>")
  | none, [] =>
      let text ← Host.input (m := m)
      return (String.ofList (Text.unifyLineEnds text.toList), "<stdin>")

def warnAll : List String → Run m Unit
  | [] => return
  | text :: rest => do
      warnLine text
      warnAll rest

def report (context : Context) (text filename : String) (refusal : Refusal) : Run m Unit :=
  match refusal.diagnostics with
  | [] => warnLine ("error: " ++ refusal.message)
  | diagnostics =>
      let style : ReportStyle := { colored := context.settings.colored, filename }
      warnAll (diagnostics.map (Diagnostic.report style text))

def deliver (context : Context) (data : String) : Run m Unit := do
  match context.words.value? .output with
  | none => printLine data
  | some path =>
      match ← Host.store (m := m) (Path.shown path) (data ++ "\n") with
      | .ok () => return
      | .error fault => throw (.fault (.file fault))

def attempt (context : Context) (text : String) : Run m (Except Refusal Rendering) := do
  if context.verbose then
    Host.log (m := m) (String.join ((Journal.ofText text).map Event.line))
  match EquationMap.render text with
  | .ok rendering => return .ok rendering
  | .error (.refused refusal) => return .error refusal
  | .error (.broken breakdown) => throw (.fault (.broken breakdown))

def orReport (context : Context) (text filename : String) :
    Except Refusal α → Run m α
  | .ok value => return value
  | .error refusal => do
      context.report text filename refusal
      exit 1

def render (context : Context) : Run m Unit := do
  let (text, filename) ← context.formula
  match ← context.attempt text with
  | .ok rendering =>
      match Json.Layout.ofIndent context.settings.indent with
      | .ok layout => context.deliver (rendering.toJson.toText layout)
      | .error fault => throw (.fault (.broken (.number fault)))
  | .error refusal => do
      context.report text filename refusal
      context.deliver (refusal.toJson.toText .spaced)
      exit 1

def svg (context : Context) : Run m Unit := do
  let (text, filename) ← context.formula
  let rendering ← context.orReport text filename (← context.attempt text)
  context.deliver rendering.svg

def spans (context : Context) : Run m Unit := do
  let (text, filename) ← context.formula
  let rendering ← context.orReport text filename (← context.attempt text)
  let rows := rendering.subexpressions.map (tableRow context.settings.colored)
  printLine ("\n".intercalate (tableHeader :: rows))

def view (context : Context) : Run m Unit := do
  let (text, filename) ← context.formula
  match Source.ofText text with
  | .ok source =>
      printLine ("\n".intercalate (treeLines source 0 source.formula.node.outline))
  | .error (.refused refusal) => context.orReport text filename (.error refusal)
  | .error (.broken breakdown) => throw (.fault (.broken breakdown))

/-- Carries out the command. The language server ends at once, as no editor is connected. -/
def perform (context : Context) : Run m Unit :=
  match context.command with
  | .render => context.render
  | .svg => context.svg
  | .spans => context.spans
  | .view => context.view
  | .lsp => return

end Context

/-- Refuses the name of a command. Words that spell switches are read as such first. -/
def refuseCommand (name : String) (rest : List String) : Run m α := do
  if name.startsWith "-" then
    let _ ← understand (m := m) .program (name :: rest)
  refuseUsage .program (.unknownCommand name (similarWords name (Command.all.map Command.name)))

def currentSettings : Run m Settings := do
  match ← Settings.loadFor (m := m) (← Host.directory (m := m)) with
  | .ok settings => return settings
  | .error fault => throw (.fault (.load fault))

def runCommand (command : Command) (verbose : Bool) (rest : List String) : Run m Unit := do
  let settings ← currentSettings
  let words ← understand (.command command) rest
  let context : Context := { command, settings, verbose, words }
  context.checkPaths words.given
  context.checkArguments
  context.perform

def runProgram (words : List String) : Run m Unit := do
  if words = [] then
    warnLine (Level.help .program)
    exit 2
  let words ← understand .program words
  match words.arguments with
  | [] => refuseUsage .program .commandMissing
  | name :: rest =>
      match Command.ofName? name with
      | none => refuseCommand name rest
      | some command => runCommand command (words.has .verbose) rest

/-- Runs the program with the words of a command line and gives the exit code, or the fault
that it breaks off with. -/
def run (words : List String) : m (Except RunFault Nat) := do
  match ← (runProgram words : Run m Unit).run with
  | .ok () => return .ok 0
  | .error (.exit code) => return .ok code
  | .error (.fault fault) => return .error fault

end EquationMap.CommandLine
