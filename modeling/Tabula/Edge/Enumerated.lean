import Tabula.Edge.Encoding
import Tabula.Edge.Tally
import Tabula.Edge.Steps
import Tabula.Response.Walk

/-!
# Edges with known partitions

The partitions of these edges are known before the request is sent:

* `SetEdge`: values listed in the query, found by value or by a filter for each;
* `RangeEdge`: a number that falls into one partition of a range;
* `SpanEdge`: a span of numbers, which falls into every partition that it overlaps.
-/

set_option autoImplicit false

namespace Tabula

/-! ## Sets -/

inductive Selection where
  /-- By value. -/
  | byValue (source : Source) (missing : Filter)
  /-- By a filter for each. -/
  | byFilter (filters : List Filter) (missing : Filter)
  deriving Inhabited

structure SetEdge where
  partitions : List Json
  selection : Selection
  deriving Inhabited

namespace SetEdge

def keys (e : SetEdge) : List String := e.partitions.map valueKey

/-- The condition of a partition. Without one of its own it is equality with its value. -/
def condition (value : Option Expr) (p : Partition) : QueryResult Expr :=
  match p.filter, value with
  | some filter, _ => .ok filter.fold
  | none, some value => .ok (Expr.compare .eq value (.literal p.value)).fold
  | none, none => malformed (.partitionWithoutTest p.value)

/-- How the partitions are found: by filters as soon as one of them has a condition. -/
def select (catalog : Catalog) (value : Option Expr) (partitions : List Partition) :
    QueryResult Selection := do
  if partitions.any fun p => p.filter.isSome then
    let conditions ← partitions.mapM (condition value)
    let missing ← (Expr.not (.or conditions)).fold.filter catalog
    .ok (.byFilter (← conditions.mapM (Expr.filter catalog)) missing)
  else
    match value with
    | none => malformed .setWithoutValue
    | some value =>
        let missing ← (Expr.not (.oneOf value (partitions.map (·.value)))).fold.filter catalog
        .ok (.byValue (← valueSource catalog value) missing)

def ofPartitions (catalog : Catalog) (value : Option Expr) (partitions : List Partition) :
    QueryResult SetEdge := do
  .ok
    { partitions := partitions.map (·.value)
      selection := ← select catalog value partitions }

/-- The last place of a key, counted from an index on. -/
def lastPlace? (key : String) : Nat → List String → Option Nat
  | _, [] => none
  | i, k :: rest => (lastPlace? key (i + 1) rest).or (if k = key then some i else none)

/-- The values asked for by name, where the backend can be asked so. -/
def listed (source : Source) (partitions : List Json) : Option (List Json) :=
  match source with
  | .column _ => some partitions
  | .script _ => none

def encode (e : SetEdge) (inner : Aggs) : Aggs :=
  match e.selection with
  | .byValue source missing =>
      matchAndMissing inner
        (.terms source (some (max e.partitions.length 1)) (listed source e.partitions) none)
        (.filter missing)
  | .byFilter filters missing => joinAndMissing inner filters missing

def slot (e : SetEdge) : Part → Slot
  | .matched n bucket =>
      match lastPlace? (valueKey (Part.matched n bucket).key) 0 e.keys with
      | some i => .partition i
      | none => .null
  | .join i _ => if i < e.partitions.length then .partition i else .unknown
  | .missing _ | .other => .null

end SetEdge

/-! ## Ranges -/

/-- An edge over a number, in the partitions of a range. -/
structure RangeEdge (α : Type := Float) where
  steps : Steps α
  source : Source
  missing : AggKind
  deriving Inhabited

namespace RangeEdge

section

variable {α : Type} [Scale α]

def inside (e : RangeEdge α) : List (Interval α) :=
  (List.range e.steps.count).map fun i =>
    { lower := some (e.steps.lower i), upper := some (e.steps.upper i) }

def outside (e : RangeEdge α) : List (Interval α) :=
  [{ lower := none, upper := some e.steps.min }, { lower := some e.steps.max, upper := none }]

/-- The intervals asked for, under the names of their aggregations. -/
def ranges (e : RangeEdge α) : List (String × List (Interval α)) :=
  [("_match", e.inside), ("_other", e.outside)]

/-- Where a bucket belongs: by its lower bound, or by its place when it gives none. -/
def slot (e : RangeEdge α) : Part → Slot
  | .matched n bucket =>
      let index := match (bucket.get? "from").bind Scale.ofJson? with
        | some start => e.steps.indexOf start
        | none => if n < e.steps.count then some n else none
      match index with
      | some i => .partition i
      | none => .null
  | .missing _ | .other => .null
  | .join _ _ => .unknown

end

def ofValue (catalog : Catalog) (value : Expr) (min max interval : Float) (limit : Nat) :
    QueryResult RangeEdge := do
  let steps ← Steps.ofFloats min max interval limit
  let source ← valueSource catalog value
  .ok { steps, source, missing := ← missingKind catalog source value }

def encode (e : RangeEdge) (inner : Aggs) : Aggs :=
  (e.ranges.map fun (name, intervals) => (name, .node (.range e.source intervals) inner))
    ++ [("_missing", .node e.missing inner)]

end RangeEdge

/-! ## Spans -/

/-- An edge over spans of numbers, in the partitions of a range. -/
structure SpanEdge (α : Type := Float) where
  steps : Steps α
  /-- For each partition, the documents whose span overlaps it. -/
  overlaps : List Filter
  missing : Filter
  deriving Inhabited

namespace SpanEdge

section

variable {α : Type} [Scale α]

/-- A span overlaps a partition: it begins before the partition ends, and ends after the
partition begins or never. -/
def overlap (span : Span) (lower upper : α) : Expr :=
  .and [.compare .lt span.min (.literal (Scale.toJson upper)),
    .or [.missing span.max, .compare .gt span.max (.literal (Scale.toJson lower))]]

def ofSteps (catalog : Catalog) (span : Span) (steps : Steps α) : QueryResult (SpanEdge α) := do
  let overlaps ← (List.range steps.count).mapM fun i =>
    (overlap span (steps.lower i) (steps.upper i)).fold.filter catalog
  .ok { steps, overlaps, missing := ← (Expr.missing span.min).fold.filter catalog }

def encode (e : SpanEdge α) (inner : Aggs) : Aggs := joinAndMissing inner e.overlaps e.missing

def slot (e : SpanEdge α) : Part → Slot
  | .join i _ => if i < e.steps.count then .partition i else .unknown
  | .matched _ _ => .unknown
  | .missing _ | .other => .null

end

def ofSpan (catalog : Catalog) (span : Span) (min max interval : Float) (limit : Nat) :
    QueryResult SpanEdge := do
  ofSteps catalog span (← Steps.ofFloats min max interval limit)

end SpanEdge

end Tabula
