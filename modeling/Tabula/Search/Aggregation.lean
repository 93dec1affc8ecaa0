import Tabula.Path
import Tabula.Query.Basic
import Tabula.Search.Filter

/-!
# Aggregation trees

A request for aggregations is a tree: each node asks for one aggregation and may have named
sub-aggregations, which the backend computes within each bucket of the node. `Aggs.render` writes
a tree as requests hold it.

A tree is scoped to the nested documents that its content is about. `Aggs.rescope` wraps a tree
so that it can be placed at another scope.
-/

set_option autoImplicit false

namespace Tabula

/-! ## Nodes -/

/-- Where an aggregation reads its values. -/
inductive Source where
  | column (name : String)
  | script (source : Script)
  deriving Inhabited

/-- The numbers from one bound up to another; a missing bound is no bound. -/
structure Interval (α : Type) where
  lower : Option α
  upper : Option α
  deriving DecidableEq, Inhabited

/-- The name of a bucket's key where buckets are ordered by it. Backends before version 6 call
it `_term`. -/
inductive KeyOrder where
  | key
  | term
  deriving DecidableEq, Inhabited

/-- Scripts that gather a value over the documents of a bucket. -/
structure Accumulator where
  init : Script
  map : Script
  combine : Script
  reduce : Script
  params : Option Json
  deriving Inhabited

/-- What a node asks for. -/
inductive AggKind where
  | filter (filter : Filter)
  /-- Steps into nested documents. -/
  | nested (path : String)
  /-- Steps out of nested documents, to the root when no path is given. -/
  | reverseNested (path : Option String)
  | terms (source : Source) (size : Option Nat) (only : Option (List Json))
      (order : Option Direction)
  | range (source : Source) (intervals : List (Interval Float))
  | missing (column : String)
  | valueCount (source : Source)
  | cardinality (source : Source)
  | extendedStats (source : Source)
  | percentiles (source : Source) (percents : List Float)
  | accumulate (scripts : Accumulator)
  deriving Inhabited

inductive Agg where
  | node (kind : AggKind) (below : List (String × Agg))

/-- Aggregations side by side, in order, under distinct names. -/
abbrev Aggs := List (String × Agg)

namespace Agg

def leaf (kind : AggKind) : Agg := .node kind []

instance : Inhabited Agg := ⟨.leaf (.filter .matchAll)⟩

end Agg

/-! ## Building -/

namespace Aggs

def get? (name : String) : Aggs → Option Agg
  | [] => none
  | (n, agg) :: rest => if n = name then some agg else get? name rest

/-- Sets the aggregation of a name: in place when there is one, else at the end. -/
def insert (name : String) (agg : Agg) : Aggs → Aggs
  | [] => [(name, agg)]
  | (n, a) :: rest => if n = name then (n, agg) :: rest else (n, a) :: insert name agg rest

def insertLeaf (name : String) (kind : AggKind) (aggs : Aggs) : Aggs :=
  aggs.insert name (.leaf kind)

/-- Adds a percent to the percentiles of a name. Anything else of that name is replaced. -/
def addPercent (name : String) (source : Source) (percent : Float) (aggs : Aggs) : Aggs :=
  match aggs.get? name with
  | some (.node (.percentiles old percents) below) =>
      if percents.any fun p => Double.orderKey p == Double.orderKey percent then aggs
      else aggs.insert name (.node (.percentiles old (percents ++ [percent])) below)
  | _ => aggs.insertLeaf name (.percentiles source [percent])

def wrap (name : String) (kind : AggKind) (aggs : Aggs) : Aggs := [(name, .node kind aggs)]

/-- The step that leads from the scope `outer` to content in the scope `inner`: into nested
documents when they lie below, out of them otherwise. -/
def step (outer inner : String) : AggKind :=
  if Path.contains outer inner then .nested inner
  else .reverseNested (if inner = Path.root then none else some inner)

/-- Wraps a tree in the scope `scope` so that it can be placed at `target`. -/
def rescope (scope target : String) (aggs : Aggs) : Aggs :=
  if scope = target then aggs else aggs.wrap "_nested" (step target scope)

end Aggs

/-! ## Rendering -/

namespace KeyOrder

def major? (version : String) : Option Nat :=
  let digits := match version.toList.takeWhile (· ≠ '.') with
    | '+' :: rest => rest
    | cs => cs
  if digits.isEmpty || !digits.all Char.isDigit then none
  else
    let n := digits.foldl (fun n c => n * 10 + (c.toNat - '0'.toNat)) 0
    if n < Nat.pow 2 32 then some n else none

def ofVersion (version : String) : KeyOrder :=
  match major? version with
  | some major => if major < 6 then term else key
  | none => key

def field : KeyOrder → String
  | key => "_key"
  | term => "_term"

end KeyOrder

namespace Source

/-- The members that say where values are read. -/
def fields : Source → Fields
  | column name => [("field", .str name)]
  | script source => [("script", source.toJson)]

end Source

namespace Interval

def toJson (i : Interval Float) : Json :=
  .obj ((i.lower.map fun x => ("from", Json.float x)).toList
    ++ (i.upper.map fun x => ("to", Json.float x)).toList)

end Interval

namespace AggKind

def name : AggKind → String
  | filter _ => "filter"
  | nested _ => "nested"
  | reverseNested _ => "reverse_nested"
  | terms _ _ _ _ => "terms"
  | range _ _ => "range"
  | missing _ => "missing"
  | valueCount _ => "value_count"
  | cardinality _ => "cardinality"
  | extendedStats _ => "extended_stats"
  | percentiles _ _ => "percentiles"
  | accumulate _ => "scripted_metric"

def body (keys : KeyOrder) : AggKind → Json
  | filter f => f.toJson
  | nested path => .obj [("path", .str path)]
  | reverseNested path => .obj [("path", .optText path)]
  | terms source size only order =>
      .obj (source.fields
        ++ (size.map fun n => ("size", Json.nat n)).toList
        ++ (only.map fun vs => ("include", Json.arr vs)).toList
        ++ (order.map fun d => ("order", Json.obj [(keys.field, .str d.name)])).toList)
  | range source intervals =>
      .obj (source.fields ++ [("ranges", .arr (intervals.map Interval.toJson))])
  | missing column => .obj [("field", .str column)]
  | valueCount source | cardinality source | extendedStats source => .obj source.fields
  | percentiles source percents =>
      .obj (source.fields ++ [("percents", .arr (percents.map Json.float))])
  | accumulate scripts =>
      .obj ((scripts.params.map fun p => ("params", p)).toList
        ++ [("init_script", .str scripts.init.render), ("map_script", .str scripts.map.render),
          ("combine_script", .str scripts.combine.render),
          ("reduce_script", .str scripts.reduce.render)])

end AggKind

mutual

def Agg.render (keys : KeyOrder) : Agg → Json
  | .node kind [] => .obj [(kind.name, kind.body keys)]
  | .node kind (sub :: below) =>
      .obj [(kind.name, kind.body keys), ("aggs", .obj (Aggs.renderFields keys (sub :: below)))]

def Aggs.renderFields (keys : KeyOrder) : List (String × Agg) → List (String × Json)
  | [] => []
  | (name, agg) :: rest => (name, Agg.render keys agg) :: Aggs.renderFields keys rest

end

def Aggs.render (keys : KeyOrder) (aggs : Aggs) : Json := .obj (Aggs.renderFields keys aggs)

end Tabula
