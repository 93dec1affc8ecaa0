import Tabula.Expr.Writer
import Tabula.Error
import Tabula.Query.Basic

/-!
# The order of edges

Rows are sorted by their coordinates, so sorting a query means ordering its edges: those that
sort terms name come first, in the order of the terms, and discovered domains among them take
the direction of their term. A cube keeps its axes in the order in which they were written.
-/

set_option autoImplicit false

namespace Tabula

structure PlacedEdge where
  index : Nat
  edge : Edge
  deriving Inhabited

namespace Grouping

/-- Whether a sort term means an edge: its value, or its name. -/
def names (term : SortTerm) (e : Edge) : Bool :=
  (match e.value with
    | some value => value.same term.value
    | none => false) || term.value.asVar? == some e.name

/-- Adds the edge that a sort term names, unless an earlier term did. -/
def addSorted (edges : List Edge) (sorted : List PlacedEdge) (term : SortTerm) :
    QueryResult (List PlacedEdge) :=
  match edges.findIdx? (names term) with
  | none => .error (.unknownSortTarget term.value.text)
  | some i =>
      if sorted.any (·.index == i) then .ok sorted
      else
        let edge := (edges[i]?).getD default
        .ok (sorted ++ [{ index := i
                          edge := { edge with domain := edge.domain.sorted term.direction } }])

def placed : Nat → List Edge → List PlacedEdge
  | _, [] => []
  | i, e :: rest => { index := i, edge := e } :: placed (i + 1) rest

def sortEdges (q : Query) : QueryResult (List PlacedEdge) := do
  let sorted ← q.sort.foldlM (addSorted q.grouping) []
  let rest := (placed 0 q.grouping).filter fun p => !sorted.any (·.index == p.index)
  let all := sorted ++ rest
  .ok (if q.format = .cube then all.mergeSort fun a b => a.index ≤ b.index else all)

end Grouping

end Tabula
