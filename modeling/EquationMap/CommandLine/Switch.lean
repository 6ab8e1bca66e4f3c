namespace EquationMap.CommandLine

inductive Switch where
  | version | verbose | help | file | output
  deriving DecidableEq

namespace Switch

def long : Switch → String
  | version => "--version"
  | verbose => "--verbose"
  | help => "--help"
  | file => "--file"
  | output => "--output"

def letter? : Switch → Option Char
  | verbose => some 'v'
  | file => some 'f'
  | output => some 'o'
  | version | help => none

def takesValue : Switch → Bool
  | file | output => true
  | version | verbose | help => false

def short (letter : Char) : String :=
  String.ofList ['-', letter]

def spellings (switch : Switch) : List String :=
  switch.letter?.toList.foldl (fun known letter => known ++ [short letter]) [switch.long]

end Switch

inductive Command where
  | render | svg | spans | view | lsp
  deriving DecidableEq

namespace Command

def all : List Command := [lsp, render, spans, svg, view]

def name : Command → String
  | render => "render"
  | svg => "svg"
  | spans => "spans"
  | view => "view"
  | lsp => "lsp"

def ofName? (name : String) : Option Command :=
  all.find? fun command => command.name = name

def takesFormula : Command → Bool
  | lsp => false
  | render | svg | spans | view => true

end Command

/-- What the words of a command line are read for: the program, or one of its commands. -/
inductive Level where
  | program
  | command (command : Command)
  deriving DecidableEq

namespace Level

def switches : Level → List Switch
  | program => [.version, .verbose, .help]
  | command .render | command .svg => [.file, .output, .help]
  | command .spans | command .view => [.file, .help]
  | command .lsp => [.help]

def isInterspersed : Level → Bool
  | program => false
  | command _ => true

def path : Level → String
  | program => "main"
  | command this => "main " ++ this.name

def usage (level : Level) : String :=
  "Usage: " ++ level.path ++
    match level with
    | program => " [OPTIONS] COMMAND [ARGS]..."
    | command this => " [OPTIONS]" ++ if this.takesFormula then " [EXPR]" else ""

end Level

end EquationMap.CommandLine
