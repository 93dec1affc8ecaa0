import Tabula.Edge.Decoder
import Tabula.Grouping.Condition
import Tabula.Grouping.Order
import Tabula.Metrics.Plan

/-!
# Compiling aggregations

A query with edges or aggregates becomes a tree of aggregations, the decoders of its edges, and
the pulls of its selects. The tree is built from the inside out: first the metrics, at the query
path; then, for every nested path from the deepest to the root, the edges that live there and the
condition on it. `Assembly` describes what belongs where, and `Assembly.tree` builds the tree.
-/

set_option autoImplicit false

namespace Tabula

structure PlannedSelect where
  select : Select
  pull : Pull
  deriving Inhabited

namespace PlannedSelect

/-- The value of a select at a node, or its default in place of null. -/
def value (s : PlannedSelect) (node : Json) : Json :=
  match s.pull.apply node with
  | .null => s.select.default
  | v => v

end PlannedSelect

/-- Everything that is needed to send an aggregation and to read its response. -/
structure GroupingPlan where
  tree : Aggs
  keyOrder : KeyOrder
  /-- One for each edge, in the order in which rows are sorted. -/
  decoders : List Decoder
  selects : List PlannedSelect
  deriving Inhabited

namespace GroupingPlan

def request (p : GroupingPlan) : Json :=
  .obj [("aggs", p.tree.render p.keyOrder), ("size", .int 0)]

end GroupingPlan

namespace Grouping

/-! ## Steps of rows -/

/-- The places of decoders from the outermost to the innermost: shallow paths before deep ones,
and in their order within a path. -/
def outerOrder (decoders : List Decoder) : List Nat :=
  let place (i : Nat) : String := ((decoders[i]?).map (·.depth)).getD Path.root
  (List.range decoders.length).mergeSort fun i j =>
    ((Path.compareDepth (place i) (place j)).then (compare i j)).isLE

/-- Gives each decoder, in this order, the next steps as its own, from a first one on. -/
def assignStarts : List Nat → Nat → List Decoder → List Decoder
  | [], _, decoders => decoders
  | i :: rest, start, decoders =>
      match decoders[i]? with
      | some d => assignStarts rest (start + d.levels) (decoders.set i { d with start })
      | none => assignStarts rest start decoders

/-! ## Trees -/

structure Assembly where
  metrics : Aggs
  queryDepth : String
  /-- The decoders from the outermost to the innermost. -/
  decoders : List Decoder
  conditions : List (String × Expr)

namespace Assembly

/-- The nested paths to visit, the deepest first. -/
def paths (a : Assembly) : List String :=
  (Text.setOf (a.queryDepth :: a.decoders.map (·.depth) ++ a.conditions.map (·.1))).mergeSort
    fun p q => (Path.compareDepth q p).isLE

/-- Wraps the condition on a path around a tree, unless it always holds. -/
def wrapCondition (catalog : Catalog) (a : Assembly) (path : String) (tree : Aggs) :
    QueryResult Aggs :=
  match a.conditions.find? (·.1 == path) with
  | none => .ok tree
  | some (_, condition) =>
      let condition := condition.fold
      if condition.isTrue then .ok tree
      else do .ok (tree.wrap "_filter" (.filter (← condition.filter catalog)))

/-- Wraps the edges that live at a path around a tree, the innermost first. -/
def wrapEdges (a : Assembly) (path : String) (tree : Aggs) : Aggs :=
  (a.decoders.filter (·.depth == path)).foldr (fun d inner => d.encode inner) tree

/-- Wraps what belongs to some paths around a tree in the scope of `scope`; gives the scope that
is reached and the tree. -/
def wrapPaths (catalog : Catalog) (a : Assembly) :
    List String → String → Aggs → QueryResult (String × Aggs)
  | [], scope, tree => .ok (scope, tree)
  | path :: rest, scope, tree => do
      let inner := a.wrapEdges path (tree.rescope scope path)
      wrapPaths catalog a rest path (← a.wrapCondition catalog path inner)

def tree (catalog : Catalog) (a : Assembly) : QueryResult Aggs := do
  let (scope, tree) ← a.wrapPaths catalog a.paths a.queryDepth a.metrics
  .ok (tree.rescope scope Path.root)

end Assembly

/-! ## Plans -/

def decoderOf (catalog : Catalog) (options : Options) (q : Query) (p : PlacedEdge) :
    QueryResult Decoder :=
  let limit := options.limit (some (p.edge.limit.getD (options.limit q.limit)))
  Decoder.ofEdge catalog options limit p.index p.edge

/-- The pieces of a query's request: its edges in the order in which rows are sorted, its metrics
and its conditions. -/
structure Pieces where
  /-- The decoders, before they own any steps. -/
  unplaced : List Decoder
  /-- One for each select. -/
  plans : List MetricPlan
  conditions : List (String × Expr)
  deriving Inhabited

namespace Pieces

def ofQuery (catalog : Catalog) (options : Options) (q : Query) : QueryResult Pieces := do
  let unplaced ← (← sortEdges q).mapM (decoderOf catalog options q)
  let plans ← q.selects.mapM (MetricPlan.ofSelect catalog options.bucketLimit)
  .ok { unplaced, plans, conditions := ← split catalog q.condition }

def order (p : Pieces) : List Nat := outerOrder p.unplaced

def decoders (p : Pieces) : List Decoder := assignStarts p.order 0 p.unplaced

def outer (p : Pieces) : List Decoder := p.order.filterMap fun i => p.decoders[i]?

def additions (p : Pieces) : List Addition := p.plans.flatMap (·.additions)

def metrics (queryDepth : String) (p : Pieces) : Aggs :=
  p.additions.foldl (Addition.apply queryDepth) []

def assembly (queryDepth : String) (p : Pieces) : Assembly where
  metrics := p.metrics queryDepth
  queryDepth := queryDepth
  decoders := p.outer
  conditions := p.conditions

end Pieces

def compile (catalog : Catalog) (options : Options) (q : Query) : QueryResult GroupingPlan := do
  let pieces ← Pieces.ofQuery catalog options q
  let tree ← (pieces.assembly catalog.queryDepth).tree catalog
  .ok
    { tree
      keyOrder := options.keyOrder
      decoders := pieces.decoders
      selects := (q.selects.zip pieces.plans).map fun (select, plan) =>
        { select, pull := plan.pull } }

end Grouping

end Tabula
