/-!
# The commands of the program

What each command is called, the operand and the options that it takes, and the help texts that
say so. A command takes one operand, and every option takes a value.
-/

set_option autoImplicit false

namespace Tabula.Cli

/-! ## Commands and options -/

structure OptionSpec where
  name : String
  letter : Option Char
  help : String
  required : Bool
  /-- The value where none is given. -/
  fallback : Option String
  /-- Whether the value is a path, which can not be empty. -/
  isPath : Bool
  deriving DecidableEq, Inhabited

structure CommandSpec where
  name : String
  help : String
  operand : String
  operandHelp : String
  options : List OptionSpec
  deriving DecidableEq, Inhabited

def programName : String := "tessera"

def programVersion : String := "0.1.0"

def programHelp : String := "Tessera - compiles analytic queries to search-backend requests"

/-- The option that names the file with the settings. All commands take it. -/
def configOption : OptionSpec where
  name := "config"
  letter := some 'c'
  help := "Config file (defaults to $TESSERA_CONFIG, ./tessera.toml, then the user config dir)"
  required := false
  fallback := none
  isPath := true

def schemaOption : OptionSpec where
  name := "schema"
  letter := some 's'
  help := "Path to the column catalog JSON"
  required := true
  fallback := none
  isPath := true

def responseOption : OptionSpec where
  name := "response"
  letter := some 'r'
  help := "Path to the recorded response JSON"
  required := true
  fallback := none
  isPath := true

def versionOption : OptionSpec where
  name := "backend-version"
  letter := none
  help := "Backend version to compile for (overrides the config)"
  required := false
  fallback := none
  isPath := false

def tableOption : OptionSpec where
  name := "table"
  letter := some 't'
  help := "Table name for the catalog"
  required := false
  fallback := some "docs"
  isPath := false

def compileCommand : CommandSpec where
  name := "compile"
  help := "Print the backend request for a query"
  operand := "QUERY"
  operandHelp := "Path to the query JSON"
  options := [schemaOption, versionOption]

def runCommand : CommandSpec where
  name := "run"
  help := "Decode a recorded backend response for a query"
  operand := "QUERY"
  operandHelp := "Path to the query JSON"
  options := [schemaOption, responseOption]

def columnsCommand : CommandSpec where
  name := "columns"
  help := "Infer a column catalog from sample documents"
  operand := "DOCS"
  operandHelp := "Path to a JSON array of documents"
  options := [tableOption]

def hashCommand : CommandSpec where
  name := "hash"
  help := "Print the saved-query id of a query"
  operand := "QUERY"
  operandHelp := "Path to the query JSON"
  options := []

def commands : List CommandSpec := [compileCommand, runCommand, columnsCommand, hashCommand]

def CommandSpec.find? (name : String) : Option CommandSpec := commands.find? (·.name == name)

/-! ## Help -/

def OptionSpec.usage (o : OptionSpec) : String :=
  "--" ++ o.name ++ " <"
    ++ String.ofList (o.name.toList.map fun c => if c = '-' then '_' else c.toUpper) ++ ">"

/-- A line of a list in a help text: a term, and what it means. -/
abbrev HelpLine := String × String

def OptionSpec.line (o : OptionSpec) : HelpLine :=
  let letter := match o.letter with
    | some c => "-" ++ c.toString ++ ", "
    | none => "    "
  let fallback := match o.fallback with
    | some v => " [default: " ++ v ++ "]"
    | none => ""
  (letter ++ o.usage, o.help ++ fallback)

def helpWidth : Nat := 100

/-- A list in a help text. The meanings stand in a column beside the terms; if that column would
be narrow and some meaning too long for it, each stands on a line of its own below its term. -/
def helpList (title : String) (lines : List HelpLine) : String :=
  let width := (lines.map fun l => l.1.length).foldl max 0
  let taken := width + 8
  let below := 2 * helpWidth < 5 * taken && lines.any fun l => helpWidth < l.2.length + taken
  let entry (l : HelpLine) : String :=
    if below then "  " ++ l.1 ++ "\n          " ++ l.2 ++ "\n"
    else
      let fill := String.ofList (List.replicate (width - l.1.length) ' ')
      "  " ++ l.1 ++ fill ++ "  " ++ l.2 ++ "\n"
  title ++ ":\n" ++ String.join (lines.map entry)

def helpLine : HelpLine := ("-h, --help", "Print help")

def CommandSpec.helpText (c : CommandSpec) : String :=
  let required := String.join ((c.options.filter (·.required)).map fun o => " " ++ o.usage)
  c.help ++ "\n\nUsage: " ++ programName ++ " " ++ c.name ++ " [OPTIONS]" ++ required
    ++ " <" ++ c.operand ++ ">\n\n"
    ++ helpList "Arguments" [("<" ++ c.operand ++ ">", c.operandHelp)] ++ "\n"
    ++ helpList "Options" ((configOption :: c.options).map OptionSpec.line ++ [helpLine])

def helpCommandLine : HelpLine :=
  ("help", "Print this message or the help of the given subcommand(s)")

def helpText : String :=
  programHelp ++ "\n\nUsage: " ++ programName ++ " [OPTIONS] <COMMAND>\n\n"
    ++ helpList "Commands" (commands.map (fun c => (c.name, c.help)) ++ [helpCommandLine]) ++ "\n"
    ++ helpList "Options" [configOption.line, helpLine, ("-V, --version", "Print version")]

end Tabula.Cli
