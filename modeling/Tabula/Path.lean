/-!
# Dotted paths

A path names a field or a nested document by its segments, joined by dots. The path `.` is the
root: it has no segments and contains every other path. The functions here work on any text, so
that the paths of a careless query are treated consistently as well.
-/

set_option autoImplicit false

namespace Tabula.Path

def root : String := "."

/-- What follows `outer` and a dot in `path`. -/
def dropOuter? : List Char → List Char → Option (List Char)
  | [], '.' :: rest => some rest
  | a :: outer, b :: path => if a = b then dropOuter? outer path else none
  | _, _ => none

/-- The part of `path` strictly below `outer`, when it begins with `outer` and a dot. -/
def below? (outer path : String) : Option String :=
  (dropOuter? outer.toList path.toList).map String.ofList

/-- Whether `path` is `outer` or lies below it. -/
def contains (outer path : String) : Bool :=
  outer == root || path == outer || (below? outer path).isSome

/-- The path `inner` seen from the root, when `inner` is relative to `outer`. -/
def join (outer inner : String) : String :=
  if outer = root then inner
  else if inner = root then outer
  else outer ++ "." ++ inner

/-- The path relative to `outer`, `.` when they are equal; a path that does not lie below
`outer` stays as it is. -/
def relative (path outer : String) : String :=
  if outer = root then path
  else if path = outer then root
  else (below? outer path).getD path

def depth (path : String) : Nat :=
  if path = root then 0 else path.toList.count '.' + 1

def splitFirst? : List Char → Option (List Char × List Char)
  | [] => none
  | '.' :: rest => some ([], rest)
  | c :: rest => (splitFirst? rest).map fun (head, tail) => (c :: head, tail)

/-- The first segment and the rest, when there is a dot. -/
def split? (path : String) : Option (String × String) :=
  (splitFirst? path.toList).map fun (head, tail) => (String.ofList head, String.ofList tail)

/-- The first segment and the rest, with `.` for the rest of a single segment. -/
def splitHead (path : String) : String × String := (split? path).getD (path, root)

def splitDots : List Char → List (List Char)
  | [] => [[]]
  | c :: rest =>
      match splitDots rest with
      | [] => [[c]]
      | head :: tail => if c = '.' then [] :: head :: tail else (c :: head) :: tail

/-- The names between the dots of a path, at least one. -/
def names (path : String) : List String := (splitDots path.toList).map String.ofList

/-- The order in which nested documents are entered: shallow paths before deep ones. -/
def compareDepth (a b : String) : Ordering := (compare (depth a) (depth b)).then (compare a b)

end Tabula.Path
