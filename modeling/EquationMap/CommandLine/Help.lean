import EquationMap.CommandLine.Switch

namespace EquationMap.CommandLine

def programVersion : String := "mathspan, version 0.1.0"

def Command.summary : Command → String
  | render => "Print the SVG and subexpressions of EXPR as JSON."
  | svg => "Render EXPR to SVG."
  | spans => "List the subexpressions of EXPR with their boxes."
  | view => "View the syntax tree of EXPR with spans and byte ranges."
  | lsp => "Start the mathspan language server."

namespace Level

def summary : Level → String
  | program => "Render Typst math to SVG with subexpression geometry."
  | command this => this.summary

def purpose (level : Level) : Switch → String
  | .version => "Show the version and exit."
  | .verbose => "Log pipeline stages to stderr."
  | .help => "Show this message and exit."
  | .file => "Read the expression from a file."
  | .output => if level = command .render then "Write JSON here." else "Write the SVG here."

def columns (rows : List (String × String)) : List String :=
  let width := rows.foldl (fun width row => max width row.1.length) 0
  rows.map fun (name, text) =>
    "  " ++ name ++ String.ofList (List.replicate (width + 2 - name.length) ' ') ++ text

def switchRow (level : Level) (switch : Switch) : String × String :=
  let short := (switch.letter?.toList.map fun letter => Switch.short letter ++ ", ")
  (String.join short ++ switch.long ++ (if switch.takesValue then " FILE" else ""),
    level.purpose switch)

def help (level : Level) : String :=
  let commands :=
    match level with
    | program =>
        "" :: "Commands:" :: columns (Command.all.map fun this => (this.name, this.summary))
    | command _ => []
  "\n".intercalate
    (level.usage :: "" :: ("  " ++ level.summary) :: "" :: "Options:" ::
      columns (level.switches.map level.switchRow) ++ commands)

end Level

end EquationMap.CommandLine
