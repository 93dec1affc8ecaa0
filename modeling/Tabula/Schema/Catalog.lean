import Tabula.Error
import Tabula.Schema.Column
import Tabula.Text.Order

/-!
# The catalog of a table

A catalog lists the columns of a table and says which nested documents a query runs over. A
reference made in such a query may be relative to these documents or start at the root, and the
relative reading goes first (`Catalog.candidates`). `Catalog.values` finds the columns of exactly
one field, `Catalog.leaves` all leaf columns at or below it.
-/

set_option autoImplicit false

namespace Tabula

/-- The columns of a table, as a query sees them. -/
structure Catalog where
  table : String
  columns : List Column
  /-- The nested documents that the query runs over, innermost first, the root last. -/
  queryPath : List String
  deriving DecidableEq, Inhabited

/-- The first list that is not empty, of those that `f` gives for the candidates. -/
def firstHit {α β : Type} (f : α → List β) : List α → List β
  | [] => []
  | a :: rest =>
      match f a with
      | [] => firstHit f rest
      | found => found

namespace Catalog

/-- A catalog whose queries run over whole documents. -/
def overRoot (table : String) (columns : List Column) : Catalog :=
  { table, columns, queryPath := [Path.root] }

/-- The innermost document that the query runs over. -/
def queryDepth (c : Catalog) : String := c.queryPath.head?.getD Path.root

/-- The same catalog for queries over the nested documents at `path`. -/
def scopedTo (c : Catalog) (path : String) : QueryResult Catalog :=
  if path = Path.root then .ok (overRoot c.table c.columns)
  else match c.columns.find? fun col => col.type == .nested && col.name == path with
    | some col => .ok { c with queryPath := col.nestedPath }
    | none => .error (.unknownField (c.table ++ "." ++ path))

/-- The fields, named from the root, that a reference may mean, the preferred one first. -/
def candidates (c : Catalog) (name : String) : List String :=
  if c.queryDepth = Path.root || name = Path.root then [name]
  else [Path.join c.queryDepth name, name]

/-- The leaf columns at or below a field. -/
def leaves (c : Catalog) (name : String) : List Column :=
  firstHit (fun field => c.columns.filter fun col =>
    col.type.isLeaf && Path.contains field col.name) (c.candidates name)

/-- The columns of exactly one field, but for those of some types. -/
def values (c : Catalog) (name : String) (exclude : List ColumnType) : List Column :=
  firstHit (fun field => c.columns.filter fun col =>
    col.name == field && !exclude.contains col.type) (c.candidates name)

/-- The columns of exactly one field that hold values. -/
def scalars (c : Catalog) (name : String) : List Column := c.values name ColumnType.containers

/-- The nested documents in which the leaf columns of some references live, as a set. -/
def depthsOf (c : Catalog) (names : List String) : List String :=
  Text.setOf ((names.flatMap c.leaves).map Column.depth)

end Catalog

end Tabula
