import Tabula.Expr.Script
import Tabula.Search.Filter

/-!
# Expressions as filters

`Expr.filter` compiles a condition to a filter. Comparisons of a field with a literal become
clauses on the columns of the field that can hold the literal; a field that no column stores
matches nothing. A condition that has no clause of its own becomes a script.
-/

set_option autoImplicit false

namespace Tabula.Expr

def literalType? : Json → Option ColumnType
  | .str _ => some .string
  | .num _ => some .number
  | .bool _ => some .boolean
  | _ => none

/-- The columns of a field that can hold a value. -/
def typedColumns (catalog : Catalog) (name : String) (value : Json) : List Column :=
  (catalog.scalars name).filter fun c =>
    match literalType? value with
    | none => true
    | some type => c.type == type || c.type == .presence

/-- A field has a value in some column at or below it. -/
def presentFilter (catalog : Catalog) (name : String) : Filter :=
  .anyOf ((catalog.leaves name).map fun c => .present c.stored)

/-- A field compares with a literal. Equality with null is absence. -/
def compareFilter (catalog : Catalog) (op : CompareOp) (name : String) (value : Json) : Filter :=
  if value.isNull then
    match op with
    | .eq => .not (presentFilter catalog name)
    | .ne => presentFilter catalog name
    | _ => .matchNone
  else
    .anyOf ((typedColumns catalog name value).map fun c =>
      match op with
      | .eq => .term c.stored value
      | .ne => .not (.term c.stored value)
      | _ => .range c.stored op value)

def startsWithFilter (catalog : Catalog) (name start : String) : Filter :=
  .anyOf (((catalog.scalars name).filter (·.type == .string)).map fun c =>
    .startsWith c.stored start)

/-- A field is one of some values. Each column is asked for the values of its type. -/
def oneOfFilter (catalog : Catalog) (name : String) (values : List Json) : Filter :=
  .anyOf ((catalog.scalars name).filterMap fun c =>
    match values.filter fun v => literalType? v == some c.type with
    | [] => none
    | matching => some (.terms c.stored matching))

def scriptFilter (catalog : Catalog) (e : Expr) : QueryResult Filter := do
  .ok (.script (← e.script catalog))

mutual

def filter (catalog : Catalog) : Expr → QueryResult Filter
  | literal v => .ok (if (Expr.literal v).isTrue then .matchAll else .matchNone)
  | and ts => do .ok (.all (← filters catalog ts))
  | or ts => do .ok (.anyOf (← filters catalog ts))
  | not t => do .ok (.not (← filter catalog t))
  | present (.var name) => .ok (presentFilter catalog name)
  | missing (.var name) => .ok (.not (presentFilter catalog name))
  | compare op (.var name) (.literal v) => .ok (compareFilter catalog op name v)
  | compare op (.literal v) (.var name) => .ok (compareFilter catalog op.flip name v)
  | startsWith (.var name) start => .ok (startsWithFilter catalog name start)
  | oneOf (.var name) values => .ok (oneOfFilter catalog name values)
  | e => scriptFilter catalog e

def filters (catalog : Catalog) : List Expr → QueryResult (List Filter)
  | [] => .ok []
  | t :: rest => do
      let f ← filter catalog t
      let more ← filters catalog rest
      .ok (f :: more)

end

end Tabula.Expr
