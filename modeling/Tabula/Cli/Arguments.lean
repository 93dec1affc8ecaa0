import Tabula.Cli.Usage

/-!
# Arguments

The arguments name a command, its operand and its options in any order, the option of the
settings also before the command. An option is written `--name VALUE`, `--name=VALUE`,
`-n VALUE`, `-nVALUE` or `-n=VALUE`, and at most once; a value that stands apart does not look
like an option. After `--` everything is an operand. The first fault, or the first request for
help, ends the reading; a value that stands apart before the command is looked at only when the
next option or the whole command has been read.
-/

set_option autoImplicit false

namespace Tabula.Cli

/-! ## What is asked for -/

inductive Command where
  /-- Print the request of a query. -/
  | compile (query schema : String) (version : Option String)
  /-- Lay out a recorded response to a query. -/
  | run (query schema response : String)
  /-- Infer a catalog from documents. -/
  | columns (docs table : String)
  /-- Print the name that a query is saved under. -/
  | hash (query : String)
  deriving DecidableEq, Inhabited

/-- What ends the reading of arguments early. -/
inductive Stop where
  /-- Help or the version is asked for. -/
  | info (text : String)
  /-- The arguments can not be understood. -/
  | misuse (reason : String)
  deriving DecidableEq, Inhabited

/-! ## Options and operands -/

/-- The values of options by name, and the operands. -/
structure Given where
  values : List (String × String)
  operands : List String
  deriving DecidableEq, Inhabited

namespace Given

def empty : Given := { values := [], operands := [] }

def value? (o : OptionSpec) (g : Given) : Option String := g.values.lookup o.name

def addValue (o : OptionSpec) (value : String) (g : Given) : Except Stop Given :=
  if (g.value? o).isSome then
    .error (.misuse ("the argument '" ++ o.usage ++ "' cannot be used multiple times"))
  else if o.isPath && value.isEmpty then
    .error (.misuse ("a value is required for '" ++ o.usage ++ "' but none was supplied"))
  else .ok { g with values := g.values ++ [(o.name, value)] }

/-- Adds an operand, of which there can be one. It is a path. -/
def addOperand (value : String) (g : Given) : Except Stop Given :=
  if !g.operands.isEmpty then .error (.misuse ("unexpected argument '" ++ value ++ "' found"))
  else if value.isEmpty then .error (.misuse "a value is required but none was supplied")
  else .ok { g with operands := [value] }

end Given

inductive Shape where
  /-- Everything after it is an operand. -/
  | escape
  /-- An option, perhaps with its value. -/
  | option (spec : OptionSpec) (value : Option String)
  | help
  | version
  /-- It looks like an option and is none. -/
  | unknown
  | operand
  deriving DecidableEq, Inhabited

/-- Whether a value that stands apart would be taken for an option. -/
def looksLikeOption (arg : String) : Bool :=
  match arg.toList with
  | '-' :: _ :: _ => true
  | _ => false

/-- The shape of an argument where some options can be given. -/
def shape (options : List OptionSpec) (arg : String) : Shape :=
  match arg.toList with
  | ['-', '-'] => .escape
  | '-' :: '-' :: rest =>
      let name := String.ofList (rest.takeWhile (· ≠ '='))
      let value := match rest.dropWhile (· ≠ '=') with
        | [] => none
        | _ :: value => some (String.ofList value)
      match options.find? (·.name == name), value with
      | some spec, value => .option spec value
      | none, none =>
          if name = "help" then .help else if name = "version" then .version else .unknown
      | none, some _ => .unknown
  | '-' :: letter :: rest =>
      let value := match rest with
        | [] => none
        | '=' :: value => some (String.ofList value)
        | value => some (String.ofList value)
      match options.find? (·.letter == some letter) with
      | some spec => .option spec value
      | none => if letter = 'h' then .help else if letter = 'V' then .version else .unknown
  | _ => .operand

def unexpected {α : Type} (arg : String) : Except Stop α :=
  .error (.misuse ("unexpected argument '" ++ arg ++ "' found"))

def valueMissing (spec : OptionSpec) : Except Stop Given :=
  .error (.misuse ("a value is required for '" ++ spec.usage ++ "' but none was supplied"))

def readGiven (command : CommandSpec) : List String → Given → Except Stop Given
  | [], g => .ok g
  | arg :: rest, g =>
      match shape (command.options ++ [configOption]) arg with
      | .escape => rest.foldlM (fun g arg => g.addOperand arg) g
      | .help => .error (.info command.helpText)
      | .version | .unknown => unexpected arg
      | .operand => do readGiven command rest (← g.addOperand arg)
      | .option spec (some value) => do readGiven command rest (← g.addValue spec value)
      | .option spec none =>
          match rest with
          | value :: rest =>
              if looksLikeOption value then valueMissing spec
              else do readGiven command rest (← g.addValue spec value)
          | [] => valueMissing spec

/-! ## Commands -/

def notProvided (usage : String) : Except Stop String :=
  .error (.misuse ("the following required arguments were not provided: " ++ usage))

def required (o : OptionSpec) (g : Given) : Except Stop String :=
  match g.value? o with
  | some value => .ok value
  | none => notProvided o.usage

def operand (c : CommandSpec) (g : Given) : Except Stop String :=
  match g.operands with
  | value :: _ => .ok value
  | [] => notProvided ("<" ++ c.operand ++ ">")

def Command.ofGiven (c : CommandSpec) (g : Given) : Except Stop Command := do
  let file ← operand c g
  if c = compileCommand then
    .ok (.compile file (← required schemaOption g) (g.value? versionOption))
  else if c = runCommand then
    .ok (.run file (← required schemaOption g) (← required responseOption g))
  else if c = columnsCommand then
    .ok (.columns file (((g.value? tableOption).or tableOption.fallback).getD ""))
  else .ok (.hash file)

def readHelp : List String → Stop
  | [] => .info helpText
  | ["help"] => .info (helpCommandLine.2 ++ "\n\nUsage: " ++ programName ++ " help [COMMAND]...\n\n"
      ++ helpList "Arguments" [("[COMMAND]...", "Print help for the subcommand(s)")])
  | name :: rest =>
      match CommandSpec.find? name, rest with
      | some c, [] => .info c.helpText
      | some _, extra :: _ => .misuse ("unrecognized subcommand '" ++ extra ++ "'")
      | none, _ => .misuse ("unrecognized subcommand '" ++ name ++ "'")

/-- Adds the value of an option that was read and not added yet. -/
def Given.settle (held : Option (OptionSpec × String)) (g : Given) : Except Stop Given :=
  match held with
  | some (spec, value) => g.addValue spec value
  | none => .ok g

/-- Reads arguments: the file with the settings, if one is named, and the command. The option of
the settings counts where it is given last, after the command. Before the command a value that
stands apart is held back until the next option, or else until the command has been read, so that
a request for help in the command comes before a fault of that value. -/
def readArguments :
    List String → Given → Option (OptionSpec × String) → Except Stop (Option String × Command)
  | [], _, _ =>
      .error (.misuse ("'" ++ programName ++ "' requires a subcommand but one was not provided"))
  | arg :: rest, g, held =>
      match shape [configOption] arg with
      | .help => do let _ ← g.settle held; .error (.info helpText)
      | .version => do
          let _ ← g.settle held
          .error (.info (programName ++ " " ++ programVersion ++ "\n"))
      | .escape | .unknown => unexpected arg
      | .option spec (some value) => do
          let g ← g.settle held
          readArguments rest (← g.addValue spec value) none
      | .option spec none =>
          match rest with
          | value :: rest =>
              if looksLikeOption value then unexpected value
              else do readArguments rest (← g.settle held) (some (spec, value))
          | [] => unexpected arg
      | .operand =>
          if arg = "help" then .error (readHelp rest)
          else match CommandSpec.find? arg with
            | none => .error (.misuse ("unrecognized subcommand '" ++ arg ++ "'"))
            | some c => do
                let given ← readGiven c rest .empty
                let command ← Command.ofGiven c given
                let g ← g.settle held
                .ok ((given.value? configOption).or (g.value? configOption), command)

def parseArguments (args : List String) : Except Stop (Option String × Command) :=
  readArguments args .empty none

end Tabula.Cli
