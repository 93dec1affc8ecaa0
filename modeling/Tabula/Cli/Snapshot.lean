import Tabula.Cli.World
import Tabula.Settings.Environment

/-!
# Snapshots

A snapshot holds the files of a machine, the directory that the program starts in, and its
environment. In a snapshot the program is a plain function of its arguments, and its clock stands
still.

A path is followed name by name, from the root if it begins with a slash and else from the
current directory. Everything that a name is looked up in has to be a directory that is there,
also if `..` leaves it again; an empty name stands for `.`, so a path that ends with a slash ends
in a directory.
-/

set_option autoImplicit false

namespace Tabula.Cli

/-- A machine as the program finds it. -/
structure Snapshot where
  /-- The texts of the files by the names that lead to them from the root. -/
  files : List (List String × String)
  /-- The names that lead to the current directory from the root. -/
  current : List String
  environment : Environment
  deriving DecidableEq, Inhabited

namespace Snapshot

inductive Entry where
  | file (text : String)
  | directory
  deriving DecidableEq, Inhabited

/-- What stands where some names lead from the root. Directories are there for what is in
them. -/
def entry? (place : List String) (s : Snapshot) : Option Entry :=
  match s.files.lookup place with
  | some text => some (.file text)
  | none =>
      if place.isPrefixOf s.current || s.files.any (fun f => place.isPrefixOf f.1) then
        some .directory
      else none

def maxName : Nat := 255

def maxPath : Nat := 4095

/-- The text of the file that some names lead to from a place. -/
def follow (s : Snapshot) : List String → List String → Except FileError String
  | place, [] =>
      match s.entry? place with
      | some (.file text) => .ok text
      | some .directory => .error .isDirectory
      | none => .error .notFound
  | place, name :: rest =>
      match s.entry? place with
      | some (.file _) => .error .notDirectory
      | none => .error .notFound
      | some .directory =>
          if name = "" ∨ name = "." then s.follow place rest
          else if name = ".." then s.follow place.dropLast rest
          else if maxName < name.utf8ByteSize then .error .nameTooLong
          else s.follow (place ++ [name]) rest

def read (path : String) (s : Snapshot) : Except FileError String :=
  if path.isEmpty then .error .notFound
  else if maxPath < path.utf8ByteSize then .error .nameTooLong
  else s.follow (if path.toList.head? = some '/' then [] else s.current) (path.splitOn "/")

def world (s : Snapshot) : World Id where
  read := fun path => s.read path
  lookup := fun name => s.environment.get? name
  seconds := (0.0 : Float)

end Snapshot

end Tabula.Cli
