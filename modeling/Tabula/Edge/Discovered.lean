import Tabula.Edge.Encoding
import Tabula.Edge.Tally
import Tabula.Response.Walk

/-!
# Edges with discovered partitions

The partitions of these edges are what the response holds: the values of one expression
(`ValueEdge`), or the tuples of values of several fields (`TupleEdge`), one level of buckets for
each field. A tally counts them before any row can be placed.
-/

set_option autoImplicit false

namespace Tabula

/-! ## Values -/

structure ValueEdge where
  source : Source
  missing : AggKind
  sort : Option Direction
  limit : Nat
  policy : Overflow
  tally : Tally
  deriving Inhabited

namespace ValueEdge

def ofValue (catalog : Catalog) (value : Expr) (sort : Option Direction) (limit : Nat)
    (policy : Overflow) : QueryResult ValueEdge := do
  let source ← valueSource catalog value
  let missing ← missingKind catalog source value
  .ok { source, missing, sort, limit, policy, tally := .empty }

def encode (e : ValueEdge) (inner : Aggs) : Aggs :=
  matchAndMissing inner (.terms e.source (some e.limit) none e.sort) e.missing

def slot (e : ValueEdge) : Part → Slot
  | .matched n bucket => e.tally.slot (valueKey (Part.matched n bucket).key) e.policy
  | .missing _ | .other => .null
  | .join _ _ => .unknown

def count (e : ValueEdge) : Part → ValueEdge
  | .matched n bucket =>
      let part := Part.matched n bucket
      { e with tally := e.tally.add part.key part.docCount.toUInt64 }
  | _ => e

end ValueEdge

/-! ## Tuples -/

/-- A field of a tuple: its name in the partitions, and its column. -/
structure TupleField where
  name : String
  column : String
  deriving DecidableEq, Inhabited

structure TupleEdge where
  fields : List TupleField
  sort : Option Direction
  limit : Nat
  policy : Overflow
  tally : Tally
  deriving Inhabited

namespace TupleEdge

def ofObject (catalog : Catalog) (name : String) (sort : Option Direction) (limit : Nat)
    (policy : Overflow) : QueryResult TupleEdge :=
  match (catalog.leaves name).filter (·.type != .presence) with
  | [] => .error (.unknownField name)
  | leaves =>
      .ok
        { fields := leaves.map fun c =>
            { name := Path.relative c.name name, column := c.stored }
          sort, limit, policy, tally := .empty }

/-- The field of a dimension. A field of several columns is represented by the first. -/
def dimensionField (catalog : Catalog) (name : String) : QueryResult TupleField :=
  match catalog.scalars name with
  | c :: _ => .ok { name, column := c.stored }
  | [] => .error (.unknownField name)

def ofDimension (catalog : Catalog) (names : List String) (limit : Nat) (policy : Overflow) :
    QueryResult TupleEdge := do
  .ok { fields := ← names.mapM (dimensionField catalog), sort := none, limit, policy,
        tally := .empty }

def encodeFields (limit : Nat) (inner : Aggs) : List TupleField → Aggs
  | [] => inner
  | f :: rest =>
      matchAndMissing (encodeFields limit inner rest)
        (.terms (.column f.column) (some limit) none none) (.missing f.column)

def encode (e : TupleEdge) (inner : Aggs) : Aggs := encodeFields e.limit inner e.fields

/-- The tuple of keys along some steps; none when a step stands for no key. -/
def keysOf? : List Part → Option (List Json)
  | [] => some []
  | .other :: _ | .join _ _ :: _ => none
  | part :: rest => (keysOf? rest).map (part.key :: ·)

/-- The tuple along some steps, when one of its values is there. -/
def tuple? (parts : List Part) : Option Json :=
  match keysOf? parts with
  | some keys => if keys.all Json.isNull then none else some (.arr keys)
  | none => none

def slot (e : TupleEdge) (parts : List Part) : Slot :=
  match tuple? parts with
  | some tuple => e.tally.slot (valueKey tuple) e.policy
  | none => .null

def count (e : TupleEdge) (parts : List Part) : TupleEdge :=
  match tuple? parts with
  | some tuple =>
      { e with tally := e.tally.add tuple ((parts.getLast?.map Part.docCount).getD 0).toUInt64 }
  | none => e

/-- A tuple as an object of the values that are there. -/
def tupleValue (e : TupleEdge) : Json → Json
  | .arr values =>
      .obj (Fields.ofList (((e.fields.map (·.name)).zip values).filter fun f => !f.2.isNull))
  | _ => .null

end TupleEdge

end Tabula
