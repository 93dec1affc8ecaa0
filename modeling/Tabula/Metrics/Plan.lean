import Tabula.Edge.Steps
import Tabula.Expr.Fold
import Tabula.Expr.Script
import Tabula.Expr.Writer
import Tabula.Metrics.Pull
import Tabula.Metrics.Template

/-!
# Metrics

A select of an aggregation is planned as the metrics that it adds to the tree at the query path
(`Placement`), and the pull that reads their results. A metric whose column lives at another
nested path is placed behind a step to that path.
-/

set_option autoImplicit false

namespace Tabula

/-! ## Placements -/

structure Placement where
  name : String
  kind : AggKind
  /-- The nested documents that the metric is computed in. -/
  depth : String
  deriving Inhabited

namespace Placement

/-- The path of names that leads to the result of a metric. -/
def keys (queryDepth : String) (p : Placement) : List String :=
  if p.depth = queryDepth then [p.name] else [p.name, "_nested"]

/-- Adds a metric to the tree at the query path. Percentiles of one name share a metric there. -/
def insertInto (queryDepth : String) (aggs : Aggs) (p : Placement) : Aggs :=
  if p.depth = queryDepth then
    aggs.insertLeaf p.name p.kind
  else
    aggs.insert p.name (.node (Aggs.step queryDepth p.depth) [("_nested", .leaf p.kind)])

end Placement

inductive Addition where
  | metric (placement : Placement)
  /-- A percent of a column at the query path, which joins other percents of the same name. -/
  | percent (name : String) (source : Source) (percent : Float)
  deriving Inhabited

def Addition.apply (queryDepth : String) (aggs : Aggs) : Addition → Aggs
  | metric p => p.insertInto queryDepth aggs
  | percent name source p => aggs.addPercent name source p

/-- The metrics of a select, and how its value is read from their results. -/
structure MetricPlan where
  additions : List Addition
  pull : Pull
  deriving Inhabited

/-! ## Percents -/

/-- A fraction as a percent, without the noise that the multiplication leaves beyond the sixth
decimal. The sign of zero is kept. -/
def percentOfFraction (p : Float) : Float :=
  match Scale.round (p * 100.0 * 1e6) with
  | some 0 => p * 0.0
  | some n => Float.ofInt n / 1e6
  | none => p

def Select.percent (s : Select) : QueryResult Float :=
  let p := s.percentile.getD 0.5
  if 0.0 ≤ p && p ≤ 1.0 then .ok (percentOfFraction p)
  else
    .error (.unsupportedAggregate s.aggregate.name
      ("with percentile " ++ messageText p ++ ", expecting a value between 0.0 and 1.0"))

/-! ## Fields -/

namespace MetricPlan

def combined (empty : Json) (many : List Pull → Pull) : List Pull → Pull
  | [] => .constant empty
  | [p] => p
  | ps => many ps

/-- Nothing to add, and a value that is known. -/
def constant (value : Json) : MetricPlan := { additions := [], pull := .constant value }

/-- One metric for each column, and the pulls of their results combined. -/
def perColumn (queryDepth : String) (columns : List Column) (placement : Column → Placement)
    (pull : Column → List String → Pull) (combine : List Pull → Pull) : MetricPlan :=
  { additions := columns.map fun c => .metric (placement c)
    pull := combine (columns.map fun c => pull c ((placement c).keys queryDepth)) }

/-- The member of a metric's result that holds a column's count. -/
def countMember (c : Column) : String := if c.type == .presence then "doc_count" else "value"

/-- The metric that counts the values of a column. A presence column holds counts itself. -/
def countPlacement (c : Column) : Placement where
  name := c.stored ++ "_count"
  kind :=
    if c.type == .presence then .filter (.range c.stored .gt (.int 0))
    else .valueCount (.column c.stored)
  depth := c.depth

/-- The name of the statistics of a field, which says where they are computed if it is not the
query path. -/
def statsName (queryDepth name : String) (c : Column) : String :=
  if c.depth = queryDepth then name else c.depth ++ "." ++ name

/-- The one column of a field, if it has columns at all. -/
def singleColumn (s : Select) (columns : List Column) : QueryResult (Option Column) :=
  match columns with
  | [] => .ok none
  | [c] => .ok (some c)
  | _ =>
      .error (.unsupportedAggregate s.aggregate.name
        ("over " ++ s.value.text ++ " with more than one column type"))

def percentileOfField (queryDepth : String) (s : Select) (name : String)
    (columns : List Column) : QueryResult MetricPlan := do
  match ← singleColumn s columns with
  | none => .ok (constant s.default)
  | some c =>
      let percent ← s.percent
      let key := name ++ " percentile"
      let placement : Placement :=
        { name := key, kind := .percentiles (.column c.stored) [percent], depth := c.depth }
      let addition :=
        if c.depth = queryDepth then .percent key (.column c.stored) percent
        else .metric placement
      .ok { additions := [addition], pull := .percentile (placement.keys queryDepth) percent }

def statsPlan (queryDepth : String) (source : Source) (depth statsName medianName : String) :
    MetricPlan :=
  let stats : Placement := { name := statsName, kind := .extendedStats source, depth }
  let median : Placement := { name := medianName, kind := .percentiles source [50.0], depth }
  { additions := [.metric stats, .metric median]
    pull := .stats (stats.keys queryDepth) (median.keys queryDepth) }

def ofField (catalog : Catalog) (s : Select) (name : String) : QueryResult MetricPlan :=
  let columns := catalog.scalars name
  let queryDepth := catalog.queryDepth
  match s.aggregate with
  | .count =>
      .ok (perColumn queryDepth columns countPlacement
        (fun c keys => .path (keys ++ [countMember c])) (combined s.default .sum))
  | .median | .percentile => percentileOfField queryDepth s name columns
  | .cardinality =>
      -- columns of one field hold values of different types, so their numbers add up
      .ok (perColumn queryDepth columns
        (fun c =>
          { name := c.stored ++ "_cardinality", kind := .cardinality (.column c.stored),
            depth := c.depth })
        (fun _ keys => .path (keys ++ ["value"]))
        (combined s.default fun pulls => .coalesce [.sum pulls, .constant (.int 0)]))
  | .stats => do
      match ← singleColumn s columns with
      | none => .ok (constant s.default)
      | some c =>
          .ok (statsPlan queryDepth (.column c.stored) c.depth name (name ++ "_percentile"))
  | .union =>
      .ok (perColumn queryDepth columns
        (fun c =>
          { name := c.stored, kind := .accumulate (Template.distinctValues c.stored),
            depth := c.depth })
        (fun _ keys => .path (keys ++ ["value"])) (combined s.default .union))
  | .countValues =>
      .ok (perColumn queryDepth columns
        (fun c =>
          { name := c.stored, kind := .accumulate (Template.valueCounts c.stored),
            depth := c.depth })
        (fun _ keys => .path (keys ++ ["value"])) (combined s.default .mergeCounts))
  | .sum | .min | .max | .avg | .std | .var | .sumOfSquares =>
      let member := s.aggregate.statsField?.getD "value"
      .ok (perColumn queryDepth columns
        (fun c =>
          { name := statsName queryDepth name c, kind := .extendedStats (.column c.stored),
            depth := c.depth })
        (fun _ keys => .coalesce [.path (keys ++ [member]), .constant s.default])
        (combined s.default .sum))
  | .plain => .error (.unsupportedAggregate "none" ("for select " ++ s.name))

/-! ## Formulas -/

/-- The nested documents that all columns of an expression live in. -/
def formulaDepth (catalog : Catalog) (e : Expr) : QueryResult String :=
  match catalog.depthsOf e.vars with
  | [] => .ok catalog.queryDepth
  | [depth] => .ok depth
  | depths => .error (.crossPath e.text depths)

/-- The plan of one metric whose value is the member `value` of its result, or another. -/
def single (queryDepth : String) (p : Placement) (members : List String) : MetricPlan :=
  { additions := [.metric p], pull := .path (p.keys queryDepth ++ members) }

/-- The plan of a select over a tuple. Only the number of tuples, and the best of them, can be
had. -/
def ofTuple (catalog : Catalog) (s : Select) (depth : String) (terms : List Expr) :
    QueryResult MetricPlan :=
  let best (direction : Int) : QueryResult MetricPlan := do
    let nulls ← (Expr.tuple (terms.map fun _ => Expr.null)).script catalog
    let tuple ← (Expr.tuple terms).script catalog
    .ok (single catalog.queryDepth
      { name := s.name, kind := .accumulate (Template.bestTuple tuple nulls direction), depth }
      ["value"])
  match s.aggregate with
  | .count => .ok { additions := [], pull := .path ["doc_count"] }
  | .max => best 1
  | .min => best (-1)
  | other => .error (.unsupportedAggregate other.name "over a tuple")

def ofScript (queryDepth : String) (valueLimit : Nat) (s : Select) (depth : String)
    (source : Source) : QueryResult MetricPlan :=
  let place (name : String) (kind : AggKind) : Placement := { name, kind, depth }
  match s.aggregate with
  | .count => .ok (single queryDepth (place s.name (.valueCount source)) ["value"])
  | .median | .percentile => do
      let percent ← s.percent
      let p := place (s.name ++ " percentile") (.percentiles source [percent])
      .ok { additions := [.metric p], pull := .percentile (p.keys queryDepth) percent }
  | .cardinality =>
      .ok (single queryDepth (place (s.name ++ " cardinality") (.cardinality source)) ["value"])
  | .stats => .ok (statsPlan queryDepth source depth s.name (s.name ++ " percentile"))
  | .union =>
      let p := place s.name (.terms source (some valueLimit) none none)
      .ok { additions := [.metric p], pull := .bucketKeys (p.keys queryDepth) }
  | .countValues =>
      let p := place s.name (.terms source (some valueLimit) none none)
      .ok { additions := [.metric p], pull := .bucketCounts (p.keys queryDepth) }
  | .sum | .min | .max | .avg | .std | .var | .sumOfSquares =>
      let p := place s.name (.extendedStats source)
      .ok
        { additions := [.metric p]
          pull := .coalesce [.path (p.keys queryDepth ++ [s.aggregate.statsField?.getD "value"]),
            .constant s.default] }
  | .plain => .error (.unsupportedAggregate "none" ("for select " ++ s.name))

def ofFormula (catalog : Catalog) (valueLimit : Nat) (s : Select) : QueryResult MetricPlan := do
  let depth ← formulaDepth catalog s.value
  match s.value.fold with
  | .tuple terms => ofTuple catalog s depth terms
  | value =>
      ofScript catalog.queryDepth valueLimit s depth (.script (← value.script catalog))

/-! ## Selects -/

/-- The number of documents. Behind a step into nested documents the step's own count is meant. -/
def ofDocuments (catalog : Catalog) : MetricPlan where
  additions := []
  pull :=
    if catalog.queryDepth = Path.root then .path ["doc_count"]
    else
      .coalesce [.path ["_nested", "doc_count"], .path ["doc_count"], .constant (.int 0)]

/-- The plan of a select of an aggregation. At most `valueLimit` values are gathered by one. -/
def ofSelect (catalog : Catalog) (valueLimit : Nat) (s : Select) : QueryResult MetricPlan := do
  if s.aggregate = .plain then
    .error (.unsupportedAggregate "none" ("for select " ++ s.name ++ " of an aggregation query"))
  else
    if s.aggregate = .median || s.aggregate = .percentile then
      let _ ← s.percent
    if s.isCountOfRoot then .ok (ofDocuments catalog)
    else
      match s.value with
      | .var name => ofField catalog s name
      | .leaves name =>
          .error (.unsupportedAggregate s.aggregate.name ("over all leaves of " ++ name))
      | _ => ofFormula catalog valueLimit s

end MetricPlan

end Tabula
