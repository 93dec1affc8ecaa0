import Tabula.Json.Value
import Tabula.Schema.Catalog

/-!
# Columns of sample documents

A path that holds an array of objects in some document is nested, and a lone object at that path
in another document counts as an array of one. Every other object is a plain container, and
every scalar makes its path a leaf of the scalar's type. Only which paths occur matters, not in
which order or how often: each of the three collections is turned into a set.
-/

set_option autoImplicit false

namespace Tabula.Inference

/-! ## Nested paths -/

mutual

/-- The paths at which a value holds arrays of objects. -/
def nestedIn (at_ : String) : Json → List String
  | .obj fields => nestedInFields at_ fields
  | .arr items =>
      (if at_ ≠ Path.root ∧ items.any Json.isObj then [at_] else []) ++ nestedInItems at_ items
  | _ => []

def nestedInItems (at_ : String) : List Json → List String
  | [] => []
  | v :: rest => nestedIn at_ v ++ nestedInItems at_ rest

def nestedInFields (at_ : String) : List (String × Json) → List String
  | [] => []
  | (k, v) :: rest => nestedIn (Path.join at_ k) v ++ nestedInFields at_ rest

end

/-! ## Containers and leaves -/

/-- What stands at a path: an object, or a scalar of some type. -/
structure Sighting where
  path : String
  type : ColumnType
  deriving DecidableEq

mutual

/-- The objects and scalars in a value, each with its path. -/
def sightings (at_ : String) : Json → List Sighting
  | .null => []
  | .bool _ => [⟨at_, .boolean⟩]
  | .num _ => [⟨at_, .number⟩]
  | .str _ => [⟨at_, .string⟩]
  | .arr items => sightingsInItems at_ items
  | .obj fields =>
      (if at_ = Path.root then [] else [⟨at_, .object⟩]) ++ sightingsInFields at_ fields

def sightingsInItems (at_ : String) : List Json → List Sighting
  | [] => []
  | v :: rest => sightings at_ v ++ sightingsInItems at_ rest

def sightingsInFields (at_ : String) : List (String × Json) → List Sighting
  | [] => []
  | (k, v) :: rest => sightings (Path.join at_ k) v ++ sightingsInFields at_ rest

end

/-! ## Columns -/

/-- The nested paths that enclose `path`, innermost first, the root last. A nested path counts
as enclosing itself when `inclusive`. -/
def chain (nested : List String) (inclusive : Bool) (path : String) : List String :=
  (nested.filter fun n => Path.contains n path && (inclusive || n != path)).mergeSort
    (fun a b => Path.depth b ≤ Path.depth a) ++ [Path.root]

/-- What is added to a field's name for each type, when it has several. -/
def typeSuffix : ColumnType → String
  | .string => "~s~"
  | .number => "~n~"
  | .boolean => "~b~"
  | .presence => "~e~"
  | .object | .nested => "~o~"

def column (name stored : String) (type : ColumnType) (nestedPath : List String) : Column :=
  { name, stored, mapping := type.mapping, type, nestedPath }

def pathsOf (type : ColumnType) (seen : List Sighting) : List String :=
  Text.setOf ((seen.filter (·.type == type)).map (·.path))

/-- The columns of a leaf, one for each type that was seen there. -/
def leafColumns (nested : List String) (seen : List Sighting) (path : String) : List Column :=
  let types := [ColumnType.string, .number, .boolean].filter fun t =>
    seen.any fun s => s.path == path && s.type == t
  let stored (t : ColumnType) := if types.length = 1 then path else path ++ "." ++ typeSuffix t
  types.map fun t => column path (stored t) t (chain nested false path)

def columnLe (a b : Column) : Bool :=
  ((compare a.name b.name).then (compare a.stored b.stored)).isLE

def columns (docs : List Json) : List Column :=
  let nested := Text.setOf (docs.flatMap (nestedIn Path.root))
  let seen := docs.flatMap (sightings Path.root)
  let objects := (pathsOf .object seen).filter fun p => !nested.contains p
  let leaves := Text.setOf ((seen.filter (·.type.isLeaf)).map (·.path))
  (nested.map (fun p => column p p .nested (chain nested true p))
    ++ objects.map (fun p => column p p .object (chain nested false p))
    ++ leaves.flatMap (leafColumns nested seen)).mergeSort columnLe

end Tabula.Inference

namespace Tabula

def Catalog.ofDocuments (table : String) (docs : List Json) : Catalog :=
  Catalog.overRoot table (Inference.columns docs)

end Tabula
