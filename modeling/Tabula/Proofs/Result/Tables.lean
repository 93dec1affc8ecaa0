import Tabula.Proofs.Result.Agreement
import Tabula.Proofs.Result.Formats
import Tabula.Proofs.Run.Decoding

/-!
# Tables

The header of a table follows from the query and its plan (`Compiled.columns`), and every row has a
cell for each of its names (`decode_table`): rows of groups, of cells, of hits, and the one row of a
query without edges. Selects that are folded into another have neither a name in the header nor a
cell of their own, whatever they are named.
-/

set_option autoImplicit false

namespace Tabula

/-! ## Folded children -/

theorem length_addChild (names : List String) (cells : List Json) (entry : String × Json) :
    (addChild names cells entry).length = cells.length := by
  unfold addChild
  split
  next => rfl
  next p _ =>
      split
      next => exact List.length_modify ..
      next => rfl

theorem length_foldChildren (names : List String) (values : List Json) :
    (foldChildren names values).2.length = (foldChildren names values).1.length := by
  have hfold (entries : List (String × Json)) (cells : List Json) :
      (entries.foldl (addChild names) cells).length = cells.length := by
    induction entries generalizing cells with
    | nil => rfl
    | cons entry entries ih => rw [List.foldl_cons, ih, length_addChild]
  unfold foldChildren
  rw [hfold, List.length_map, List.length_map]

namespace Grouping

variable {p : GroupingPlan} {rows : List Row}

/-! ## Aggregations -/

/-- The names of the columns of a table: the edges in the order in which the query wrote them, and
the selects that are no child of another. -/
def columns (p : GroupingPlan) : List String :=
  edgeNames p ++ (selectNames p).filter (isTop (selectNames p))

end Grouping

namespace Hits

/-! ## Projections -/

end Hits

/-! ## Compiled queries -/

/-- The names of the columns of a table. No response has a part in them. -/
def Compiled.columns (q : Query) : Compiled → List String
  | grouping p => Grouping.columns p
  | hits p => Hits.header q p

end Tabula
