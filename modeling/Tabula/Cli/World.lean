/-!
# What the program sees

The program reads files, environment variables and a clock, and nothing else. They are given as
operations of some monad, so that it runs in any world that has them.
-/

set_option autoImplicit false

namespace Tabula.Cli

inductive FileError where
  | notFound
  /-- Something on the path is no directory. -/
  | notDirectory
  | isDirectory
  | denied
  /-- A name on the path is too long, or all of the path. -/
  | nameTooLong
  | other (reason : String)
  deriving DecidableEq, Inhabited

namespace FileError

def message : FileError → String
  | notFound => "No such file or directory (os error 2)"
  | notDirectory => "Not a directory (os error 20)"
  | isDirectory => "Is a directory (os error 21)"
  | denied => "Permission denied (os error 13)"
  | nameTooLong => "File name too long (os error 36)"
  | other reason => reason

def isAbsent : FileError → Bool
  | notFound | notDirectory | nameTooLong => true
  | _ => false

end FileError

/-- What can be seen of a world. -/
structure World (m : Type → Type) where
  /-- The text of the file under a path. -/
  read : String → m (Except FileError String)
  /-- The value of an environment variable, when it is set. -/
  lookup : String → m (Option String)
  /-- The seconds of a clock that only runs forward. -/
  seconds : m Float

structure Outcome where
  status : Nat
  stdout : String
  stderr : String
  deriving DecidableEq, Inhabited

end Tabula.Cli
