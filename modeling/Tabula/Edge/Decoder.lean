import Tabula.Edge.Discovered
import Tabula.Edge.Enumerated
import Tabula.Expr.Writer
import Tabula.Query.Basic

/-!
# Decoders

A decoder is an edge bound to a request and its response. It wraps its aggregations around the
inner tree (`encode`), counts what a response holds (`count`, `doneCount`), and turns its part of
a row's steps into the index of a partition (`index?`). It owns the steps from `start` on, one
for each level of buckets that it asked for.
-/

set_option autoImplicit false

namespace Tabula

inductive EdgeKind where
  | set (edge : SetEdge)
  | range (edge : RangeEdge)
  | span (edge : SpanEdge)
  | value (edge : ValueEdge)
  | tuple (edge : TupleEdge)
  deriving Inhabited

namespace EdgeKind

def levels : EdgeKind → Nat
  | tuple e => e.fields.length
  | _ => 1

def encode (inner : Aggs) : EdgeKind → Aggs
  | set e => e.encode inner
  | range e => e.encode inner
  | span e => e.encode inner
  | value e => e.encode inner
  | tuple e => e.encode inner

def isDiscovery : EdgeKind → Bool
  | value _ | tuple _ => true
  | _ => false

def isFrozen : EdgeKind → Bool
  | value e => e.tally.frozen.isSome
  | tuple e => e.tally.frozen.isSome
  | _ => true

def slot (kind : EdgeKind) (parts : List Part) : Slot :=
  match kind, parts with
  | tuple e, parts => e.slot parts
  | set e, part :: _ => e.slot part
  | range e, part :: _ => e.slot part
  | span e, part :: _ => e.slot part
  | value e, part :: _ => e.slot part
  | _, [] => .unknown

def count (kind : EdgeKind) (parts : List Part) : EdgeKind :=
  match kind, parts with
  | tuple e, parts => tuple (e.count parts)
  | value e, part :: _ => value (e.count part)
  | kind, _ => kind

def doneCount : EdgeKind → EdgeKind
  | value e => value { e with tally := e.tally.freeze e.sort e.limit }
  | tuple e => tuple { e with tally := e.tally.freeze e.sort e.limit }
  | kind => kind

/-- The number of partitions, but for that of missing values. -/
def partitionCount : EdgeKind → Nat
  | set e => e.partitions.length
  | range e => e.steps.count
  | span e => e.steps.count
  | value e => e.tally.size
  | tuple e => e.tally.size

def value? (i : Nat) : EdgeKind → Option Json
  | set e => e.partitions[i]?
  | range e => e.steps.value? i
  | span e => e.steps.value? i
  | value e => e.tally.value? i
  | tuple e => (e.tally.value? i).map e.tupleValue

def partitions (kind : EdgeKind) : List Json :=
  (List.range kind.partitionCount).map fun i => (kind.value? i).getD .null

def describe : EdgeKind → Fields
  | range e => e.steps.describe
  | span e => e.steps.describe
  | tuple e =>
      [("type", .str "set"), ("dimension", .obj [("fields", .texts (e.fields.map (·.name)))])]
  | set _ | value _ => [("type", .str "set")]

/-- The number of documents that count as missing because of the limit. -/
def overflow : EdgeKind → Option UInt64
  | value e => e.tally.overflow e.policy
  | tuple e => e.tally.overflow e.policy
  | _ => none

end EdgeKind

/-! ## Output domains -/

/-- The domain of an edge as results show it. -/
structure OutputDomain where
  name : String
  partitions : List Json
  allowNulls : Bool
  overflow : Option UInt64
  properties : Fields
  deriving Inhabited

namespace OutputDomain

def size (d : OutputDomain) : Nat := d.partitions.length + (if d.allowNulls then 1 else 0)

def value (d : OutputDomain) (i : Nat) : Json := (d.partitions[i]?).getD .null

def partitionsJson : Nat → List Json → List Json
  | _, [] => []
  | i, v :: rest => .obj [("value", v), ("dataIndex", .nat i)] :: partitionsJson (i + 1) rest

def toJson (d : OutputDomain) : Json :=
  let overflow : Fields := (d.overflow.map fun n => ("overflow", Json.nat n.toNat)).toList
  .obj [("name", .str d.name), ("allowNulls", .bool d.allowNulls),
    ("domain", .obj (d.properties ++ [("partitions", .arr (partitionsJson 0 d.partitions))]
      ++ overflow))]

end OutputDomain

/-! ## Decoders -/

/-- An edge bound to a request. -/
structure Decoder where
  name : String
  /-- The place of the edge in the query. -/
  edgeIndex : Nat
  /-- The nested documents that the edge's columns live in. -/
  depth : String
  /-- The first of the steps that the decoder owns. -/
  start : Nat
  allowNulls : Bool
  kind : EdgeKind
  deriving Inhabited

/-- The nested documents that the columns of an edge live in. They have to be the same for all
of them, and each field of its value has to have some. -/
def Edge.depth (catalog : Catalog) (e : Edge) : QueryResult String := do
  let valueVars := (e.value.map Expr.vars).getD []
  match valueVars.find? fun v => v != Path.root && (catalog.leaves v).isEmpty with
  | some unknown => .error (.unknownField unknown)
  | none =>
      match catalog.depthsOf e.vars with
      | [] => .ok Path.root
      | [depth] => .ok depth
      | depths => .error (.crossPath ((e.value.map Expr.text).getD e.name) depths)

/-- The object whose leaves an edge groups by, when its value names one. -/
def Edge.object? (catalog : Catalog) (value : Expr) : Option String :=
  match value with
  | .var name =>
      if (catalog.values name [.nested]).any (·.type == .object) then some name else none
  | _ => none

def Edge.kind (catalog : Catalog) (options : Options) (limit : Nat) (e : Edge) :
    QueryResult EdgeKind :=
  match e.span, e.domain, e.value with
  | some span, .range min max interval, _ =>
      .span <$> SpanEdge.ofSpan catalog span min max interval options.bucketLimit
  | some _, _, _ => malformed (.rangeWithoutDomain e.name)
  | none, .dimension fields, _ =>
      .tuple <$> TupleEdge.ofDimension catalog fields limit options.overflow
  | none, .set partitions, value => .set <$> SetEdge.ofPartitions catalog value partitions
  | none, .range min max interval, some value =>
      .range <$> RangeEdge.ofValue catalog value min max interval options.bucketLimit
  | none, .discovered sort, some value =>
      match Edge.object? catalog value with
      | some name => .tuple <$> TupleEdge.ofObject catalog name sort limit options.overflow
      | none => .value <$> ValueEdge.ofValue catalog value sort limit options.overflow
  | none, _, none => malformed (.edgeWithoutValue e.name)

namespace Decoder

def ofEdge (catalog : Catalog) (options : Options) (limit edgeIndex : Nat) (e : Edge) :
    QueryResult Decoder := do
  let depth ← e.depth catalog
  let kind ← e.kind catalog options limit
  .ok { name := e.name, edgeIndex, depth, start := 0, allowNulls := e.allowNulls, kind }

def levels (d : Decoder) : Nat := d.kind.levels

def encode (d : Decoder) (inner : Aggs) : Aggs := d.kind.encode inner

/-- The decoder's part of the steps of a row. -/
def ownParts (d : Decoder) (parts : List Part) : QueryResult (List Part) :=
  if d.start + d.levels ≤ parts.length then .ok ((parts.drop d.start).take d.levels)
  else
    .error (.formatting (toString parts.length ++ " path parts")
      ("edge " ++ d.name ++ " expects path positions " ++ toString d.start ++ ".."
        ++ toString (d.start + d.levels)))

def partitionCount (d : Decoder) : Nat := d.kind.partitionCount

/-- The number of partitions, that of missing values included. -/
def size (d : Decoder) : Nat := d.partitionCount + (if d.allowNulls then 1 else 0)

def value (d : Decoder) (i : Nat) : Json := (d.kind.value? i).getD .null

def index? (d : Decoder) (parts : List Part) : QueryResult (Option Nat) := do
  if !d.kind.isFrozen then .error (.domainNotFrozen d.name)
  else
    let own ← d.ownParts parts
    match d.kind.slot own with
    | .partition i => .ok (some i)
    | .null => .ok (if d.allowNulls then some d.partitionCount else none)
    | .unknown => .ok none

def count (d : Decoder) (parts : List Part) : QueryResult Decoder := do
  let own ← d.ownParts parts
  .ok { d with kind := d.kind.count own }

def doneCount (d : Decoder) : Decoder := { d with kind := d.kind.doneCount }

def outputDomain (d : Decoder) : OutputDomain where
  name := d.name
  partitions := d.kind.partitions
  allowNulls := d.allowNulls
  overflow := d.kind.overflow
  properties := d.kind.describe

end Decoder

end Tabula
