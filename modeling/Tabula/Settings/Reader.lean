import Tabula.Settings.Basic
import Tabula.Toml.Parser

/-!
# Settings in TOML

A document holds the tables `backend`, `query` and `logging`. What is not said keeps its default,
and unknown keys are ignored, as long as their numbers can be represented. A table of settings
may also be given by position, as an array. A date in place of a table says nothing.
-/

set_option autoImplicit false

namespace Tabula

namespace Toml.Value

/-! ## Values that are ignored -/

mutual

/-- Whether every number in a value can be represented: integers in 128 bits, fractional ones as
doubles. -/
def representable : Value → Bool
  | integer n => -(Nat.pow 2 127 : Int) ≤ n && n < Nat.pow 2 128
  | float x => x.isSome
  | array items => allRepresentable items
  | tables items => tablesRepresentable items
  | table _ entries => entriesRepresentable entries
  | _ => true

def allRepresentable : List Value → Bool
  | [] => true
  | v :: rest => representable v && allRepresentable rest

def tablesRepresentable : List (List (String × Value)) → Bool
  | [] => true
  | entries :: rest => entriesRepresentable entries && tablesRepresentable rest

def entriesRepresentable : List (String × Value) → Bool
  | [] => true
  | (_, v) :: rest => representable v && entriesRepresentable rest

end

/-! ## Values that are read -/

def asString? : Value → Option String
  | string s => some s
  | _ => none

def asBool? : Value → Option Bool
  | boolean b => some b
  | _ => none

def asNat? : Value → Option Nat
  | integer n => if 0 ≤ n ∧ n < Nat.pow 2 64 then some n.toNat else none
  | _ => none

def isVoid : Value → Bool
  | array [] => true
  | table _ [] => true
  | _ => false

/-- A policy by its name, which may also be the only key of a table with nothing below. -/
def asOverflow? : Value → Option Overflow
  | string name => named? name
  | table _ [(name, v)] => if v.isVoid then named? name else none
  | _ => none
where
  /-- The policy of a name. -/
  named? (name : String) : Option Overflow :=
    [Overflow.drop, Overflow.other].find? fun o => o.name == name

/-- The items of an array, also of an array of tables. -/
def items? : Value → Option (List Value)
  | array items => some items
  | tables items => some (items.map (table .header))
  | _ => none

/-- The values of some keys, from a table or by position. -/
def members? (keys : List String) (v : Value) : Option Entries :=
  match v, v.items? with
  | _, some items => some (keys.zip items)
  | table _ entries, none =>
      if entriesRepresentable (entries.filter fun e => !keys.contains e.1) then some entries
      else none
  | moment _, none => some []
  | _, none => none

end Toml.Value

namespace Toml.Entries

/-- The value of a key as it is read, or what stands for it when it is missing. -/
def read? {α : Type} (entries : Entries) (key : String) (default : α)
    (read : Value → Option α) : Option α :=
  match entries.get? key with
  | some v => read v
  | none => some default

end Toml.Entries

def BackendSettings.ofToml? (v : Toml.Value) : Option BackendSettings := do
  let entries ← v.members? ["version", "index_prefix", "timeout_seconds"]
  some
    { version := ← entries.read? "version" default.version Toml.Value.asString?
      indexPrefix := ← entries.read? "index_prefix" default.indexPrefix Toml.Value.asString?
      timeoutSeconds := ← entries.read? "timeout_seconds" default.timeoutSeconds
        fun v => v.asNat?.map some }

def QuerySettings.ofToml? (v : Toml.Value) : Option QuerySettings := do
  let entries ← v.members? ["default_limit", "max_limit", "overflow"]
  some
    { defaultLimit := ← entries.read? "default_limit" default.defaultLimit Toml.Value.asNat?
      maxLimit := ← entries.read? "max_limit" default.maxLimit fun v => v.asNat?.map some
      overflow := ← entries.read? "overflow" default.overflow Toml.Value.asOverflow? }

def LoggingSettings.ofToml? (v : Toml.Value) : Option LoggingSettings := do
  let entries ← v.members? ["level", "json"]
  some
    { level := ← entries.read? "level" default.level Toml.Value.asString?
      json := ← entries.read? "json" default.json Toml.Value.asBool? }

namespace Settings

def ofEntries? (entries : Toml.Entries) : Option Settings := do
  let entries ← (Toml.Value.table .header entries).members? ["backend", "query", "logging"]
  some
    { backend := ← entries.read? "backend" .default BackendSettings.ofToml?
      query := ← entries.read? "query" .default QuerySettings.ofToml?
      logging := ← entries.read? "logging" .default LoggingSettings.ofToml? }

def ofText (text : String) : Except SettingsError Settings :=
  match (Toml.parse? text).bind ofEntries? with
  | none => .error .malformed
  | some s => s.check.map fun _ => s

end Settings

end Tabula
