import Tabula.Expr.Filter
import Tabula.Grouping.Condition
import Tabula.Options

/-!
# Compiling projections

A query without edges and aggregates is answered by hits: documents, of which each select reads
some columns. A select of an object or of all leaves reads every leaf column below it. Columns of
nested documents below the query path are fetched with the hit and put together again as
documents. A query over a nested path has a row for each nested document.
-/

set_option autoImplicit false

namespace Tabula

/-! ## Reading hits -/

/-- Where a value goes in a row. -/
structure Put where
  /-- The name of the output column. -/
  name : String
  /-- The place of the output column. -/
  index : Nat
  /-- The path below the column; `.` for the column itself. -/
  child : String
  deriving DecidableEq, Inhabited

inductive HitPull where
  /-- A column of the document, or of the nested document of a row. -/
  | column (stored : String) (inner : Bool)
  /-- The id of the document. -/
  | id
  /-- A value that a script computes. -/
  | computed (name : String)
  /-- The nested documents at a path, each put together from columns with their names in it. -/
  | documents (path : String) (columns : List (String × String))
  /-- Nothing: no column stores the field. -/
  | nothing
  deriving DecidableEq, Inhabited

structure HitSelect where
  name : String
  put : Put
  pull : HitPull
  deriving DecidableEq, Inhabited

/-! ## Requests -/

inductive SortClause where
  | column (stored : String) (direction : Direction)
  | script (source : Script) (direction : Direction)
  deriving Inhabited

def SortClause.toJson : SortClause → Json
  | column stored direction => .obj [(stored, .str direction.name)]
  | script source direction =>
      .obj [("_script", .obj [("type", .str "number"), ("script", source.toJson),
        ("order", .str direction.name)])]

structure Fetched where
  /-- Columns of the documents. -/
  stored : List String
  /-- Columns of the nested documents that the rows are. -/
  inner : List String
  /-- Columns of nested documents further below, by path. -/
  nested : Text.Groups String
  /-- Scripts by name. -/
  scripts : List (String × Script)
  deriving Inhabited

structure HitsPlan where
  queryDepth : String
  limit : Nat
  fetched : Fetched
  /-- The conditions by nested path. -/
  conditions : List (String × Filter)
  sort : List SortClause
  selects : List HitSelect
  deriving Inhabited

namespace HitsPlan

/-- The nested path that rows are drawn from, when it is not the root. -/
def deep? (p : HitsPlan) : Option String :=
  if p.queryDepth = Path.root then none else some p.queryDepth

/-- The conditions outside of the documents that the rows are. -/
def outerFilters (p : HitsPlan) : List Filter :=
  (p.conditions.filter fun c => c.1 != p.queryDepth || c.1 == Path.root).map fun (path, f) =>
    if path = Path.root then f else .nested path f none

def rowFilters (p : HitsPlan) : List Filter :=
  (p.conditions.filter fun c => c.1 == p.queryDepth && c.1 != Path.root).map (·.2)

/-- The condition on a document; for a query over nested documents, that it has some. -/
def filter (p : HitsPlan) : Filter :=
  match p.deep? with
  | none => .allOf p.outerFilters
  | some depth =>
      let hits : InnerHits := { size := some p.limit, columns := p.fetched.inner }
      .allOf (p.outerFilters ++ [.nested depth (.allOf p.rowFilters) (some hits)])

/-- The clauses that fetch nested documents further below. -/
def fetching (p : HitsPlan) : List Filter :=
  p.fetched.nested.map fun (path, columns) =>
    .nested path .matchAll (some { size := none, columns })

def fullFilter (p : HitsPlan) : Filter :=
  match p.fetching with
  | [] => p.filter
  | tried => .trying p.filter tried

def request (p : HitsPlan) : Json :=
  let sort : Fields :=
    if p.sort.isEmpty then [] else [("sort", .arr (p.sort.map SortClause.toJson))]
  let scripts : Fields :=
    if p.fetched.scripts.isEmpty then []
    else [("script_fields", .obj (Fields.ofList (p.fetched.scripts.map fun (name, s) =>
      (name, .obj [("script", s.toJson)]))))]
  .obj ([("from", .int 0), ("query", p.fullFilter.toJson), ("size", .nat p.limit)] ++ sort
    ++ [("stored_fields", .texts p.fetched.stored)] ++ scripts)

end HitsPlan

namespace Hits

/-! ## Selects -/

def addNew (texts : List String) (text : String) : List String :=
  if texts.contains text then texts else texts ++ [text]

/-- How a column at or above the query path is read. -/
def pullColumn (queryDepth : String) (c : Column) : HitPull :=
  .column c.stored (queryDepth != Path.root && c.depth == queryDepth)

/-- Whether hits show a column under its field. -/
def isShown (c : Column) : Bool := c.type != .presence

/-- All leaves at or below a path, each under its own name. -/
def leafSelects (catalog : Catalog) (index : Nat) (s : Select) (path : String) :
    List HitSelect :=
  let depth := catalog.queryDepth
  ((catalog.leaves path).filter fun c => isShown c && !c.isBelow depth).map fun c =>
    let place := Path.join s.name (Path.relative (Path.relative c.name depth) path)
    let (name, child) := Path.splitHead place
    { name, put := { name, index, child }, pull := pullColumn depth c }

/-- Columns of nested documents below the query path, by path, each with its name there. -/
def documentColumns (columns : List Column) : Text.Groups (String × String) :=
  columns.foldl (fun groups c =>
    Text.addToGroup c.depth (c.stored, Path.relative c.name c.depth) groups) []

def fieldSelects (catalog : Catalog) (index : Nat) (s : Select) (field : String) :
    List HitSelect :=
  let depth := catalog.queryDepth
  let columns := (catalog.leaves field).filter fun c => isShown c && c.stored != "_id"
  let select (child : String) (pull : HitPull) : HitSelect :=
    { name := s.name, put := { name := s.name, index, child }, pull }
  if columns.isEmpty then [select Path.root .nothing]
  else
    ((columns.filter fun c => !c.isBelow depth).map fun c =>
      select (Path.relative (Path.relative c.name depth) field) (pullColumn depth c))
    ++ (documentColumns (columns.filter fun c => c.isBelow depth)).map fun (path, columns) =>
      select Path.root (.documents path columns)

/-- What a select reads, and the script that it needs. -/
def planSelect (catalog : Catalog) (index : Nat) (s : Select) :
    QueryResult (List HitSelect × Option Script) :=
  let whole (pull : HitPull) : List HitSelect :=
    [{ name := s.name, put := { name := s.name, index, child := Path.root }, pull }]
  match s.value with
  | .leaves path => .ok (leafSelects catalog index s path, none)
  | .var "_id" => .ok (whole .id, none)
  | .var field => .ok (fieldSelects catalog index s field, none)
  | e => do
      let script ← e.fold.script catalog
      .ok (whole (.computed s.name), some script)

/-- What the selects of a query read, counted from an index on, and the scripts by name. -/
def planSelects (catalog : Catalog) :
    Nat → List Select → QueryResult (List HitSelect × List (String × Script))
  | _, [] => .ok ([], [])
  | index, s :: rest => do
      let (selects, script) ← planSelect catalog index s
      let (more, scripts) ← planSelects catalog (index + 1) rest
      .ok (selects ++ more, (script.map fun source => (s.name, source)).toList ++ scripts)

/-! ## Fetching -/

def addPull (f : Fetched) : HitPull → Fetched
  | .column stored true => { f with inner := addNew f.inner stored }
  | .column stored false => { f with stored := addNew f.stored stored }
  | .documents path columns =>
      { f with
        nested := columns.foldl (fun groups c => Text.addNewToGroup path c.1 groups) f.nested }
  | .id | .computed _ | .nothing => f

def fetchedBy (pulls : List HitPull) (scripts : List (String × Script)) : Fetched :=
  pulls.foldl addPull { stored := [], inner := [], nested := [], scripts }

/-! ## Sorting -/

/-- The place of a type where columns of one field are sorted by. -/
def sortRank : ColumnType → Nat
  | .boolean => 0
  | .number => 1
  | .string => 2
  | _ => 3

/-- The columns that a field is sorted by: booleans, numbers, then texts, and backwards when
descending. -/
def sortColumns (direction : Direction) (columns : List Column) : List Column :=
  let ordered := columns.mergeSort fun a b => sortRank a.type ≤ sortRank b.type
  match direction with
  | .asc => ordered
  | .desc => ordered.reverse

def sortTerm (catalog : Catalog) (t : SortTerm) : QueryResult (List SortClause) :=
  match t.value with
  | .var field =>
      match catalog.leaves field with
      | [] => .error (.unknownField field)
      | columns =>
          .ok ((sortColumns t.direction columns).map fun c => .column c.stored t.direction)
  | e => do .ok [.script (← e.fold.script catalog) t.direction]

def sortClauses (catalog : Catalog) (terms : List SortTerm) : QueryResult (List SortClause) := do
  .ok (← terms.mapM (sortTerm catalog)).flatten

/-! ## Plans -/

def compile (catalog : Catalog) (options : Options) (q : Query) : QueryResult HitsPlan := do
  let (selects, scripts) ← planSelects catalog 0 q.selects
  let conditions ← (← Grouping.split catalog q.condition).mapM fun (path, e) => do
    .ok (path, ← e.filter catalog)
  .ok
    { queryDepth := catalog.queryDepth
      limit := options.limit q.limit
      fetched := fetchedBy (selects.map (·.pull)) scripts
      conditions
      sort := ← sortClauses catalog q.sort
      selects }

end Hits

end Tabula
