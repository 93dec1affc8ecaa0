import Tabula.Hits.Plan
import Tabula.Json.Update
import Tabula.Result.Formatted

/-!
# Results of projections

The hits of a response become a list of rows, a table, or a cube with a synthetic edge that
numbers the rows. Values come as lists; a list of one is the value itself.
-/

set_option autoImplicit false

namespace Tabula.Hits

/-! ## Rows -/

/-- A hit and, for a query over nested documents, one of them. -/
structure HitRow where
  hit : Json
  inner : Option Json
  deriving Inhabited

def hitsOf (node : Json) : List Json :=
  match (node.getD "hits").get? "hits" with
  | some (.arr items) => items
  | _ => []

def innerHits (hit : Json) (path : String) : List Json :=
  hitsOf ((hit.getD "inner_hits").getD path)

def rows (p : HitsPlan) (response : Json) : QueryResult (List HitRow) :=
  match response.get? "hits" with
  | none => .error (.formatting response.compact "response has no hits")
  | some _ =>
      let hits := hitsOf response
      match p.deep? with
      | none => .ok (hits.map fun hit => { hit, inner := none })
      | some path =>
          .ok ((hits.flatMap fun hit =>
            (innerHits hit path).map fun inner => { hit, inner := some inner : HitRow }).take
              p.limit)

/-! ## Values -/

/-- The value in a list of one. An empty list is null. -/
def unwrapList : Json → Json
  | .arr [] => .null
  | .arr [v] => v
  | v => v

def columnOf (doc : Json) (name : String) : Json :=
  unwrapList ((doc.getD "fields").getD name)

/-- A nested document, put together from its columns. -/
def document (columns : List (String × String)) (doc : Json) : Json :=
  .obj (columns.foldl (fun fields (stored, name) =>
    let value := columnOf doc stored
    if value.isNull then fields else Fields.setPath name value fields) [])

/-- Sets the element at an index. A list that is too short is filled up with nulls. -/
def placeAt (docs : List Json) (i : Nat) (v : Json) : List Json :=
  if i < docs.length then docs.set i v
  else docs ++ List.replicate (i - docs.length) .null ++ [v]

/-- The place of a nested document among its siblings; the next one when it does not say. -/
def offsetOf (doc : Json) (next : Nat) : Nat :=
  (((doc.getD "_nested").get? "offset").bind Json.asNat?).getD next

/-- The nested documents that came with a hit, each at its place. -/
def documents (inner : List Json) (columns : List (String × String)) : Json :=
  match inner.foldl (fun docs doc =>
      placeAt docs (offsetOf doc docs.length) (document columns doc)) [] with
  | [] => .null
  | docs => .arr docs

/-- The length that the list of the nested documents gets. -/
def reach (inner : List Json) : Nat := inner.foldl (fun n doc => max n (offsetOf doc n + 1)) 0

/-- Whether the value of a row is a list of nested documents that is longer than there can be. -/
def isTooLong (row : HitRow) : HitPull → Bool
  | .documents path _ => capacity < reach (innerHits row.hit path)
  | _ => false

def read (row : HitRow) : HitPull → Json
  | .column stored true => (row.inner.map fun doc => columnOf doc stored).getD .null
  | .column stored false => columnOf row.hit stored
  | .id => row.hit.getD "_id"
  | .computed name => columnOf row.hit name
  | .documents path columns => documents (innerHits row.hit path) columns
  | .nothing => .null

def putChild (child : String) (value : Json) (cell : Json) : Json :=
  if child = Path.root then value else .obj (Fields.setPath child value (Fields.ofValue cell))

/-! ## Shapes -/

/-- Whether a row of a list is the value of the one select. -/
def isScalar (q : Query) : Bool :=
  q.shape == .single && match q.selects.head?.map Select.value with
    | some (.leaves _) => false
    | _ => true

def addToRow (scalar : Bool) (s : HitSelect) (value : Json) (row : Json) : Json :=
  if scalar then putChild s.put.child value row
  else
    let fields := Fields.ofValue row
    .obj (Fields.insert s.put.name
      (putChild s.put.child value (Fields.getD s.put.name fields)) fields)

/-- A row of a list. What is null is left out. -/
def listRow (q : Query) (p : HitsPlan) (row : HitRow) : Json :=
  p.selects.foldl (fun out s =>
    let value := read row s.pull
    if value.isNull then out else addToRow (isScalar q) s value out) .null

def columnName (q : Query) (s : HitSelect) : String :=
  if isScalar q || s.name = Path.root then s.name else (Path.splitHead s.name).1

def tableWidth (p : HitsPlan) : Nat := p.selects.foldl (fun n s => max n (s.put.index + 1)) 0

/-- The header of a table. A column is named by the first select in it, or the last when the
rows are single values. -/
def header (q : Query) (p : HitsPlan) : List String :=
  (List.range (tableWidth p)).map fun i =>
    let inColumn := p.selects.filter (·.put.index == i)
    let named := if isScalar q then inColumn.getLast? else inColumn.head?
    (named.map (columnName q)).getD ""

def tableRow (p : HitsPlan) (row : HitRow) : List Json :=
  p.selects.foldl (fun cells s =>
    let value := read row s.pull
    if value.isNull then cells else cells.modify s.put.index (putChild s.put.child value))
    (List.replicate (tableWidth p) .null)

def rowEdge (count : Nat) : Json :=
  .obj [("name", .str "rownum"),
    ("domain", .obj [("type", .str "rownum"), ("min", .int 0), ("max", .nat count),
      ("interval", .int 1)])]

/-- The columns of a table, each as an array under its name. -/
def cube (header : List String) (table : List (List Json)) : Formatted :=
  .cube [rowEdge table.length]
    ((List.range header.length).map fun i =>
      ((header[i]?).getD "", .arr (table.map fun row => (row[i]?).getD .null)))

def format (q : Query) (p : HitsPlan) (response : Json) : QueryResult Formatted := do
  let rows ← rows p response
  if rows.any fun row => p.selects.any fun s => isTooLong row s.pull then .error .tooLong
  else
    .ok (match q.format with
      | .list => .list (rows.map (listRow q p))
      | .table => .table (header q p) (rows.map (tableRow p))
      | .cube => cube (header q p) (rows.map (tableRow p)))

end Tabula.Hits
