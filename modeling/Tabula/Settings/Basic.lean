import Tabula.Options
import Tabula.Settings.Template

/-!
# Settings

What can be configured: the backend that queries are compiled for, the limits of queries, and
what is logged. `Settings.check` says which settings make no sense together.
-/

set_option autoImplicit false

namespace Tabula

/-! ## Faults -/

inductive SettingsError where
  | fileNotFound (path : String)
  | unreadable (reason : String)
  /-- The file is no TOML, or a setting has the wrong type. -/
  | malformed
  | missingVariable (name : String)
  | limitNotPositive
  /-- The greatest limit is below the one that is granted by default. -/
  | limitsCrossed (maxLimit defaultLimit : Nat)
  deriving DecidableEq, Inhabited

def SettingsError.message : SettingsError → String
  | fileNotFound path => "Config file not found: " ++ path
  | unreadable reason => "Failed to read config file: " ++ reason
  | malformed => "Failed to parse config file"
  | missingVariable name => "Missing environment variable: " ++ name
  | limitNotPositive => "Invalid configuration: query.default_limit must be positive"
  | limitsCrossed maxLimit defaultLimit =>
      "Invalid configuration: query.max_limit " ++ toString maxLimit
        ++ " is below query.default_limit " ++ toString defaultLimit

/-! ## Settings -/

/-- The backend that queries are compiled for. -/
structure BackendSettings where
  /-- The version that it reports. -/
  version : String
  /-- A template of what precedes every table in the name of its index. -/
  indexPrefix : String
  /-- How many seconds to wait for a search; without it, as long as it takes. -/
  timeoutSeconds : Option Nat
  deriving DecidableEq, Inhabited

structure QuerySettings where
  defaultLimit : Nat
  maxLimit : Option Nat
  overflow : Overflow
  deriving DecidableEq, Inhabited

structure LoggingSettings where
  level : String
  json : Bool
  deriving DecidableEq, Inhabited

structure Settings where
  backend : BackendSettings
  query : QuerySettings
  logging : LoggingSettings
  deriving DecidableEq, Inhabited

def BackendSettings.default : BackendSettings where
  version := "6.8.2"
  indexPrefix := ""
  timeoutSeconds := none

namespace BackendSettings

/-- What precedes every table in the name of its index. -/
def expandedPrefix (environment : String → Option String) (s : BackendSettings) :
    Except SettingsError String :=
  (Template.expand environment s.indexPrefix).mapError .missingVariable

def indexFor (environment : String → Option String) (table : String) (s : BackendSettings) :
    Except SettingsError String :=
  (s.expandedPrefix environment).map (· ++ table)

/-- How many milliseconds to wait for a search. -/
def timeoutMillis (s : BackendSettings) : Option Nat := s.timeoutSeconds.map (· * 1000)

end BackendSettings

def QuerySettings.default : QuerySettings where
  defaultLimit := Options.default.defaultLimit
  maxLimit := none
  overflow := .drop

def LoggingSettings.default : LoggingSettings where
  level := "info"
  json := false

namespace Settings

def default : Settings where
  backend := .default
  query := .default
  logging := .default

/-- Rejects settings that make no sense together. -/
def check (s : Settings) : Except SettingsError Unit :=
  if s.query.defaultLimit = 0 then .error .limitNotPositive
  else match s.query.maxLimit with
    | some max =>
        if max < s.query.defaultLimit then .error (.limitsCrossed max s.query.defaultLimit)
        else .ok ()
    | none => .ok ()

def options (s : Settings) : Options :=
  { Options.default with
    defaultLimit := s.query.defaultLimit
    maxLimit := s.query.maxLimit
    overflow := s.query.overflow }

end Settings

end Tabula
