/-!
# Environments

An environment is a list of entries `NAME=VALUE`. The value of a variable is what follows its name
and an equals sign in the first entry that begins with both. So a name with an equals sign in it
reaches into the value of another variable.
-/

set_option autoImplicit false

namespace Tabula

/-- The variables of an environment, as entries `NAME=VALUE`. -/
structure Environment where
  entries : List String
  deriving DecidableEq, Inhabited

namespace Environment

def ofList (pairs : List (String × String)) : Environment where
  entries := pairs.map fun p => p.1 ++ "=" ++ p.2

/-- What follows `start` in an entry, when it begins so. -/
def after? (start entry : List Char) : Option String :=
  if start.isPrefixOf entry then some (String.ofList (entry.drop start.length)) else none

/-- The value of a variable, when it is set. No variable has an empty name. -/
def get? (name : String) (e : Environment) : Option String :=
  if name.isEmpty then none
  else e.entries.findSome? fun entry => after? (name.toList ++ ['=']) entry.toList

end Environment

end Tabula
