import Tabula.Expr.Filter
import Tabula.Expr.Fold
import Tabula.Response.Node
import Tabula.Search.Aggregation

/-!
# Edges in requests

The forms in which edges ask for buckets: one aggregation for the values that match, one filter
for each partition, and beside them one for the documents without a value. Each of them holds
the whole inner tree.
-/

set_option autoImplicit false

namespace Tabula

/-- Where the values of an expression are read: the column of a field that has just one, else a
script. -/
def valueSource (catalog : Catalog) (value : Expr) : QueryResult Source := do
  let columns := match value with
    | .var name => catalog.scalars name
    | _ => []
  match columns with
  | [c] => .ok (.column c.stored)
  | _ => .ok (.script (← value.fold.script catalog))

/-- The documents that have no value. -/
def missingKind (catalog : Catalog) (source : Source) (value : Expr) : QueryResult AggKind :=
  match source with
  | .column name => .ok (.missing name)
  | .script _ => do .ok (.filter (← (Expr.missing value).filter catalog))

/-- The buckets of the values that match, beside the documents that have none. -/
def matchAndMissing (inner : Aggs) (matched missing : AggKind) : Aggs :=
  [("_match", .node matched inner), ("_missing", .node missing inner)]

/-- One bucket for each of some filters, numbered from an index on. -/
def joinNodes (inner : Aggs) : Nat → List Filter → Aggs
  | _, [] => []
  | i, f :: rest => (Marker.joinKey i, .node (.filter f) inner) :: joinNodes inner (i + 1) rest

/-- One bucket for each of some filters, beside the documents that satisfy none. -/
def joinAndMissing (inner : Aggs) (filters : List Filter) (missing : Filter) : Aggs :=
  joinNodes inner 0 filters ++ [("_missing", .node (.filter missing) inner)]

end Tabula
