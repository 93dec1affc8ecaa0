import Tabula.Cli.Arguments
import Tabula.Cli.World
import Tabula.Json.Parser
import Tabula.Query.Reader
import Tabula.Run.Executor
import Tabula.Schema.Inference
import Tabula.Schema.Reader
import Tabula.Settings.Reader

/-!
# The program

`Cli.program` reads its arguments, the settings and the files that the command
names, and prints JSON, or the name of a saved query, or one line about what failed. Settings are
read before anything else, and the query before the catalog and the response.
-/

set_option autoImplicit false

namespace Tabula.Cli

/-! ## Failures -/

inductive Failure where
  | settings (cause : SettingsError)
  | unreadable (path : String) (cause : FileError)
  | notJson (path : String)
  | invalidQuery (cause : QueryError)
  | invalidCatalog (path : String)
  | compilation (cause : QueryError)
  | execution (cause : QueryError)
  deriving Inhabited

def Failure.message : Failure → String
  | settings cause => "Configuration error: " ++ cause.message
  | unreadable path cause => "Error reading file '" ++ path ++ "': " ++ cause.message
  | notJson path => "Error parsing JSON in '" ++ path ++ "'"
  | invalidQuery cause => "Invalid query: " ++ cause.message
  | invalidCatalog path => "Invalid catalog '" ++ path ++ "'"
  | compilation cause => "Compilation error: " ++ cause.message
  | execution cause => "Query error: " ++ cause.message

variable {m : Type → Type} [Monad m]

abbrev Step (m : Type → Type) := ExceptT Failure m

/-- Fails with a failure made from the cause of an error. -/
def orFail {ε α : Type} (failure : ε → Failure) (result : Except ε α) : Step m α :=
  match result with
  | .ok a => pure a
  | .error cause => throw (failure cause)

/-! ## Settings -/

def settingsIn (w : World m) (path : String) : Step m Settings := do
  match ← w.read path with
  | .ok text => orFail .settings (Settings.ofText text)
  | .error cause =>
      throw (.settings (if cause.isAbsent then .fileNotFound path else .unreadable cause.message))

def settingsInFirst (w : World m) : List String → Step m Settings
  | [] => pure .default
  | path :: rest => do
      match ← w.read path with
      | .error cause => if cause.isAbsent then settingsInFirst w rest else settingsIn w path
      | .ok _ => settingsIn w path

def userDirectory (w : World m) : m (Option String) := do
  match ← w.lookup "XDG_CONFIG_HOME", ← w.lookup "HOME" with
  | some config, home =>
      if config.toList.head? = some '/' then pure (some config)
      else pure (home.map (· ++ "/.config"))
  | none, home => pure (home.map (· ++ "/.config"))

/-- Reads the settings: those in the file that is named, or named by the environment, or in the
current directory, or in the directory of the user. -/
def readSettings (w : World m) (named : Option String) : Step m Settings := do
  match named, ← w.lookup "TESSERA_CONFIG" with
  | some path, _ => settingsIn w path
  | none, some path => settingsIn w path
  | none, none =>
      let user ← (userDirectory w : m (Option String))
      settingsInFirst w ("tessera.toml" :: (user.map (· ++ "/tessera/config.toml")).toList)

/-! ## Files -/

def readJson (w : World m) (path : String) : Step m Json := do
  let text ← orFail (.unreadable path) (← w.read path)
  match Json.parse? text with
  | some v => pure v
  | none => throw (.notJson path)

def readQuery (w : World m) (path : String) : Step m Query := do
  orFail .invalidQuery (Query.ofJson (← readJson w path))

def readCatalog (w : World m) (path : String) : Step m Catalog := do
  match Catalog.ofJson? (← readJson w path) with
  | some catalog => pure catalog
  | none => throw (.invalidCatalog path)

/-! ## Commands -/

def readPrefix (w : World m) (s : Settings) : Step m String := do
  let values ← (Template.names s.backend.indexPrefix).mapM fun name => do
    pure (name, ← w.lookup name)
  orFail .settings (s.backend.expandedPrefix fun name => (values.lookup name).join)

def compile (w : World m) (s : Settings) (query schema : String) (version : Option String) :
    Step m Json := do
  let q ← readQuery w query
  let catalog ← readCatalog w schema
  let executor : Executor :=
    { version := version.getD s.backend.version, options := s.options, indexPrefix := "" }
  let compiled ← orFail .compilation (executor.compile catalog q)
  pure compiled.request

/-- The output of a query with a recorded response. The backend answers at once. -/
def run (w : World m) (s : Settings) (query schema response : String) : Step m Json := do
  let q ← readQuery w query
  let catalog ← readCatalog w schema
  let response ← readJson w response
  let executor : Executor :=
    { version := s.backend.version, options := s.options, indexPrefix := ← readPrefix w s }
  let session : Session :=
    { backend := .recorded (.ofResponses [.ok response]), saved := none }
  let started ← w.seconds
  let output ← orFail .execution (executor.run catalog q session).1
  let ended ← w.seconds
  pure (output.toJson (.obj [("backend", .float 0.0), ("formatting", .float (ended - started))]))

/-- The catalog inferred from an array of documents, or from one document. -/
def columns (w : World m) (docs table : String) : Step m Json := do
  let v ← readJson w docs
  pure (Catalog.ofDocuments table (v.asArr?.getD [v])).toJson

def Command.answer (w : World m) (s : Settings) : Command → Step m String
  | .compile query schema version => do pure (← Cli.compile w s query schema version).pretty
  | .run query schema response => do pure (← Cli.run w s query schema response).pretty
  | .columns docs table => do pure (← Cli.columns w docs table).pretty
  | .hash query => do pure (queryId (← readJson w query))

def answer (w : World m) (config : Option String) (command : Command) : Step m String := do
  command.answer w (← readSettings w config)

def program (w : World m) (args : List String) : m Outcome := do
  match parseArguments args with
  | .error (.info text) => pure { status := 0, stdout := text, stderr := "" }
  | .error (.misuse reason) =>
      pure { status := 2, stdout := "", stderr := "error: " ++ reason ++ "\n" }
  | .ok (config, command) =>
      match ← (answer w config command).run with
      | .ok text => pure { status := 0, stdout := text ++ "\n", stderr := "" }
      | .error failure => pure { status := 1, stdout := "", stderr := failure.message ++ "\n" }

end Tabula.Cli
