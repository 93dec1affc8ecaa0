/-!
# Sets and groups by text

Texts are ordered by code points. A set of texts is an ascending list without repetitions, so
that equal sets are equal lists. Groups are lists under such a set of names.
-/

set_option autoImplicit false

namespace Tabula.Text

def le (a b : String) : Bool := (compare a b).isLE

def insert (x : String) : List String → List String
  | [] => [x]
  | y :: ys =>
      match compare x y with
      | .lt => x :: y :: ys
      | .eq => y :: ys
      | .gt => y :: insert x ys

def setOf (xs : List String) : List String := xs.foldr insert []

/-- Lists by name, ascending by name. -/
abbrev Groups (α : Type) := List (String × List α)

def addToGroup {α : Type} (name : String) (a : α) : Groups α → Groups α
  | [] => [(name, [a])]
  | (n, as) :: rest =>
      match compare name n with
      | .lt => (name, [a]) :: (n, as) :: rest
      | .eq => (n, as ++ [a]) :: rest
      | .gt => (n, as) :: addToGroup name a rest

/-- Adds a text at the end of the list of a name, unless the list holds it. -/
def addNewToGroup (name text : String) (groups : Groups String) : Groups String :=
  if groups.any fun g => g.1 == name && g.2.contains text then groups
  else addToGroup name text groups

end Tabula.Text
