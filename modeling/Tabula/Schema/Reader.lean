import Tabula.Schema.Catalog

/-!
# Catalogs as JSON

A catalog is an object with `table`, `columns` and perhaps `query_path`, and a column an object
with `name`, `es_column`, `jx_type` and perhaps `es_type` and `nested_path`. Members may also be
given by position, as an array. Unknown members are ignored; anything else that is missing or of
the wrong type makes the catalog invalid.
-/

set_option autoImplicit false

namespace Tabula

def Json.listOf? {α : Type} (read : Json → Option α) (v : Json) : Option (List α) := do
  (← v.asArr?).mapM read

def Json.member? {α : Type} (v : Json) (key : String) (read : Json → Option α) : Option α :=
  (v.get? key).bind read

def Json.memberOr? {α : Type} (v : Json) (key : String) (default : α) (read : Json → Option α) :
    Option α :=
  match v.get? key with
  | some member => read member
  | none => some default

/-- The members of an object given by position. More values than names are an error. -/
def Json.named? (names : List String) : Json → Option Json
  | .arr items =>
      if items.length ≤ names.length then some (.obj (names.zip items)) else none
  | .obj fields => some (.obj fields)
  | _ => none

namespace ColumnType

def ofJson? : Json → Option ColumnType
  | .str name => ofName? name
  | .obj [(name, .null)] => ofName? name
  | _ => none

end ColumnType

namespace Column

def ofJson? (v : Json) : Option Column := do
  let v ← v.named? ["name", "es_column", "es_type", "jx_type", "nested_path"]
  some
    { name := ← v.member? "name" Json.asStr?
      stored := ← v.member? "es_column" Json.asStr?
      mapping := ← v.memberOr? "es_type" "" Json.asStr?
      type := ← v.member? "jx_type" ColumnType.ofJson?
      nestedPath := ← v.memberOr? "nested_path" [Path.root] (Json.listOf? Json.asStr?) }

def toJson (c : Column) : Json :=
  .obj [("name", .str c.name), ("es_column", .str c.stored), ("es_type", .str c.mapping),
    ("jx_type", .str c.type.name), ("nested_path", .texts c.nestedPath)]

end Column

namespace Catalog

def ofJson? (v : Json) : Option Catalog := do
  let v ← v.named? ["table", "columns", "query_path"]
  some
    { table := ← v.member? "table" Json.asStr?
      columns := ← v.member? "columns" (Json.listOf? Column.ofJson?)
      queryPath := ← v.memberOr? "query_path" [Path.root] (Json.listOf? Json.asStr?) }

def toJson (c : Catalog) : Json :=
  .obj [("table", .str c.table), ("columns", .arr (c.columns.map Column.toJson)),
    ("query_path", .texts c.queryPath)]

end Catalog

end Tabula
