import Tabula.Grouping.Rows
import Tabula.Result.Formatted
import Tabula.Result.Matrix

/-!
# Results of aggregations

The rows of an aggregation become a list, a table or a cube. By edges, every coordinate of the
cube has a row; by groupby, only the coordinates at which documents were counted. Without edges
there is one row.
-/

set_option autoImplicit false

namespace Tabula.Grouping

/-! ## Cells -/

def dims (p : GroupingPlan) : List Nat := p.decoders.map Decoder.size

/-- The places of the decoders in the order in which the query wrote the edges. -/
def writtenOrder (p : GroupingPlan) : List Nat :=
  let written (i : Nat) : Nat := ((p.decoders[i]?).map (·.edgeIndex)).getD 0
  (List.range p.decoders.length).mergeSort fun i j => written i ≤ written j

def selectValues (p : GroupingPlan) (node : Json) : List Json :=
  p.selects.map fun s => s.value node

def selectNames (p : GroupingPlan) : List String := p.selects.map (·.select.name)

def mergeRow (row : Row) : List PlannedSelect → List Matrix → QueryResult (List Matrix)
  | s :: selects, m :: matrices => do
      let m ← m.merge row.coord (s.value row.node) s.select.aggregate
      .ok (m :: (← mergeRow row selects matrices))
  | _, _ => .ok []

def fillMatrices (p : GroupingPlan) (rows : List Row) : QueryResult (List Matrix) := do
  let matrices ← p.selects.mapM fun s => Matrix.new (dims p) s.select.default
  rows.foldlM (fun matrices row => mergeRow row p.selects matrices) matrices

def cellValues (matrices : List Matrix) (coord : List Nat) : QueryResult (List Json) :=
  matrices.mapM fun m => m.get coord

/-! ## Groups -/

structure Group where
  coord : List Nat
  values : List Json
  deriving Inhabited

/-- The order of coordinates: by the first component that differs. -/
def compareCoord : List Nat → List Nat → Ordering
  | [], [] => .eq
  | [], _ :: _ => .lt
  | _ :: _, [] => .gt
  | a :: as, b :: bs => (compare a b).then (compareCoord as bs)

def combineValues : List PlannedSelect → List Json → List Json → List Json
  | s :: selects, a :: as, b :: bs =>
      s.select.aggregate.combine a b :: combineValues selects as bs
  | _, as, _ => as

/-- Adds a row to groups whose last one is in front. -/
def addRow (p : GroupingPlan) (groups : List Group) (row : Row) : List Group :=
  let values := selectValues p row.node
  match groups with
  | g :: rest =>
      if g.coord = row.coord then
        { g with values := combineValues p.selects g.values values } :: rest
      else { coord := row.coord, values } :: groups
  | [] => [{ coord := row.coord, values }]

/-- The rows with documents, in the order of their coordinates, those of one coordinate
combined. -/
def groups (p : GroupingPlan) (rows : List Row) : List Group :=
  let counted := rows.filter fun r => 0 < Response.docCount r.node
  let sorted := counted.mergeSort fun a b => (compareCoord a.coord b.coord).isLE
  (sorted.foldl (addRow p) []).reverse

/-! ## Shapes -/

/-- The names of the edges and their values at a coordinate, in written order. -/
def edgeValues (p : GroupingPlan) (coord : List Nat) : List (String × Json) :=
  (writtenOrder p).filterMap fun i =>
    (p.decoders[i]?).map fun d => (d.name, d.value ((coord[i]?).getD 0))

/-- A row of a list. What is null is left out. -/
def rowObject (p : GroupingPlan) (coord : List Nat) (values : List Json) : Json :=
  .obj ((edgeValues p coord ++ (selectNames p).zip values).foldl
    (fun fields entry => Fields.put entry.1 entry.2 fields) [])

def tableRow (p : GroupingPlan) (coord : List Nat) (values : List Json) : List Json :=
  (edgeValues p coord).map (·.2) ++ (foldChildren (selectNames p) values).2

/-- The header of a table, made along with a row that has these values. -/
def headerWith (p : GroupingPlan) (values : List Json) : List String :=
  (writtenOrder p).filterMap (fun i => (p.decoders[i]?).map (·.name))
    ++ (foldChildren (selectNames p) values).1

def header (p : GroupingPlan) : List String := headerWith p ((selectNames p).map fun _ => .null)

/-- The header of a table of groups, made along with the first of them. -/
def groupsHeader (p : GroupingPlan) : List Group → List String
  | [] => header p
  | g :: _ => headerWith p g.values

def allCells (p : GroupingPlan) (rows : List Row) : QueryResult (List Group) := do
  let matrices ← fillMatrices p rows
  (Matrix.coordinates (dims p)).mapM fun coord => do
    .ok { coord, values := ← cellValues matrices coord }

def cube (p : GroupingPlan) (rows : List Row) : QueryResult Formatted := do
  let matrices ← fillMatrices p rows
  .ok (.cube (p.decoders.map fun d => d.outputDomain.toJson)
    ((selectNames p).zip (matrices.map Matrix.toJson)))

def singleResult (q : Query) (p : GroupingPlan) (rows : List Row) : Formatted :=
  let values := selectValues p ((rows.head?.map (·.node)).getD .null)
  let entries := (selectNames p).zip values
  match q.format with
  | .list =>
      match q.shape, values with
      | .single, [v] => .value v
      | _, _ => .value (.obj (entries.foldl (fun fields e => Fields.put e.1 e.2 fields) []))
  | .table =>
      let (header, cells) := foldChildren (selectNames p) values
      .table header [cells]
  | .cube => .cube [] entries

def format (q : Query) (p : GroupingPlan) (rows : List Row) : QueryResult Formatted := do
  if p.decoders.isEmpty then .ok (singleResult q p rows)
  else if q.format = .cube then cube p rows
  else
    let cells ← if q.isGroupby then .ok (groups p rows) else allCells p rows
    .ok (if q.format = .list then .list (cells.map fun g => rowObject p g.coord g.values)
      else
        let header := if q.isGroupby then groupsHeader p cells else header p
        .table header (cells.map fun g => tableRow p g.coord g.values))

end Tabula.Grouping
