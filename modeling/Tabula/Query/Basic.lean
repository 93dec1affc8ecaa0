import Tabula.Expr.Basic

/-!
# Queries

A query projects selects over a table. It may group the documents by edges, which span a
complete cross product like the axes of a cube, or by groupby, which gives only the combinations
that occur.
-/

set_option autoImplicit false

namespace Tabula

/-! ## Shapes and directions -/

inductive Format where
  | list
  | table
  | cube
  deriving DecidableEq, Inhabited

def Format.name : Format → String
  | list => "list"
  | table => "table"
  | cube => "cube"

inductive Direction where
  | asc
  | desc
  deriving DecidableEq, Inhabited

namespace Direction

def name : Direction → String
  | asc => "asc"
  | desc => "desc"

/-- The direction as a factor: `1` ascending, `-1` descending. -/
def sign : Direction → Int
  | asc => 1
  | desc => -1

end Direction

/-! ## Aggregates -/

/-- What a select computes over a group of documents. `plain` is no aggregate: the value of one
document. -/
inductive Aggregate where
  | plain
  | count
  | sum
  | min
  | max
  | avg
  | std
  | var
  | sumOfSquares
  | median
  | percentile
  | cardinality
  | stats
  | union
  | countValues
  deriving DecidableEq, Inhabited

namespace Aggregate

def name : Aggregate → String
  | plain => "none"
  | count => "count"
  | sum => "sum"
  | min => "min"
  | max => "max"
  | avg => "avg"
  | std => "std"
  | var => "var"
  | sumOfSquares => "sum_of_squares"
  | median => "median"
  | percentile => "percentile"
  | cardinality => "cardinality"
  | stats => "stats"
  | union => "union"
  | countValues => "count_values"

/-- The member of the backend's extended statistics that holds the aggregate. -/
def statsField? : Aggregate → Option String
  | count => some "count"
  | sum => some "sum"
  | min => some "min"
  | max => some "max"
  | avg => some "avg"
  | std => some "std_deviation"
  | var => some "variance"
  | sumOfSquares => some "sum_of_squares"
  | _ => none

/-- Whether the aggregate of a union of disjoint groups is the sum of theirs. -/
def isAdditive : Aggregate → Bool
  | count | sum | sumOfSquares => true
  | _ => false

/-- The value of an empty group. -/
def default : Aggregate → Json
  | count | cardinality => .int 0
  | _ => .null

end Aggregate

/-! ## Clauses -/

/-- One projected column. -/
structure Select where
  name : String
  value : Expr
  aggregate : Aggregate
  /-- The fraction that a percentile asks for. -/
  percentile : Option Float
  /-- The value in place of null. -/
  default : Json
  deriving Inhabited

namespace Select

def count : Select where
  name := "count"
  value := .root
  aggregate := .count
  percentile := none
  default := .int 0

/-- Whether the documents themselves are counted, and not the values of a field. -/
def isCountOfRoot (s : Select) : Bool :=
  s.aggregate == .count && s.value.asVar? == some Path.root

end Select

/-- Whether a query selects one expression or a list of them. -/
inductive SelectShape where
  | single
  | list
  deriving DecidableEq, Inhabited

structure Partition where
  name : Option String
  value : Json
  /-- Which documents belong to it, when not those that have its value. -/
  filter : Option Expr
  deriving Inhabited

/-- The values that an edge takes. -/
inductive Domain where
  /-- Discovered in the response. -/
  | discovered (sort : Option Direction)
  /-- Enumerated in the query. -/
  | set (partitions : List Partition)
  /-- The numbers from `min` up to `max`, in partitions of the width `interval`. -/
  | range (min max interval : Float)
  /-- Tuples of the values of several fields, discovered in the response. -/
  | dimension (fields : List String)
  deriving Inhabited

namespace Domain

/-- The direction of a discovered domain; no other domain has one. -/
def sorted (sort : Option Direction) : Domain → Domain
  | discovered _ => discovered sort
  | d => d

end Domain

/-- The span of an interval-valued edge: a document covers the values from `min` up to `max`. -/
structure Span where
  min : Expr
  max : Expr
  deriving Inhabited

/-- A dimension by which documents are grouped. -/
structure Edge where
  name : String
  value : Option Expr
  span : Option Span
  domain : Domain
  limit : Option Nat
  /-- Whether a last partition takes what is missing or out of the domain. -/
  allowNulls : Bool
  deriving Inhabited

namespace Edge

/-- The edge of a field with a discovered domain. -/
def ofField (name : String) : Edge where
  name := name
  value := some (.var name)
  span := none
  domain := .discovered none
  limit := none
  allowNulls := true

/-- The fields that the domain of an edge refers to. -/
def domainReferences : Domain → List String
  | .dimension fields => fields
  | .set partitions => partitions.flatMap fun p => (p.filter.map Expr.references).getD []
  | _ => []

def vars (e : Edge) : List String :=
  Text.setOf ((e.value.map Expr.references).getD []
    ++ (e.span.map fun s => s.min.references ++ s.max.references).getD []
    ++ domainReferences e.domain)

end Edge

structure SortTerm where
  value : Expr
  direction : Direction
  deriving Inhabited

structure Query where
  /-- The table, and perhaps a nested path in it. -/
  table : String
  selects : List Select
  shape : SelectShape
  edges : List Edge
  groupby : List Edge
  condition : Expr
  sort : List SortTerm
  limit : Option Nat
  format : Format
  /-- Whether to keep the query under an id. -/
  save : Bool
  /-- The query as it was written, for keeping it; none when it was not read but built. -/
  written : Option Json
  deriving Inhabited

namespace Query

/-- The number of rows of a query that does not say. -/
def defaultLimit : Nat := 10

/-- The dimensions by which documents are grouped. -/
def grouping (q : Query) : List Edge := if q.edges.isEmpty then q.groupby else q.edges

/-- Whether only the combinations that occur are wanted. -/
def isGroupby (q : Query) : Bool := q.edges.isEmpty && !q.groupby.isEmpty

def effectiveLimit (q : Query) : Nat := q.limit.getD defaultLimit

end Query

end Tabula
