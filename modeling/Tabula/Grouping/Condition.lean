import Tabula.Error
import Tabula.Expr.Fold
import Tabula.Expr.Writer
import Tabula.Schema.Catalog

/-!
# Conditions by nested path

A condition on nested documents has to be tested inside them. The condition of a query is
therefore split into its conjuncts, and each goes with the nested path that its columns live in.
-/

set_option autoImplicit false

namespace Tabula.Grouping

/-- The nested path of a conjunct; that of the query when it refers to no column. -/
def conjunctDepth (catalog : Catalog) (e : Expr) : QueryResult String :=
  match catalog.depthsOf e.vars with
  | [] => .ok catalog.queryDepth
  | [depth] => .ok depth
  | depths => .error (.crossPath e.text depths)

def conjunction : List Expr → Expr
  | [e] => e
  | es => .and es

/-- The folded condition, split by nested path. -/
def split (catalog : Catalog) (condition : Expr) : QueryResult (List (String × Expr)) := do
  let groups ← condition.fold.conjuncts.foldlM
    (fun groups e => do .ok (Text.addToGroup (← conjunctDepth catalog e) e groups)) []
  .ok (groups.map fun (path, es) => (path, conjunction es))

end Tabula.Grouping
