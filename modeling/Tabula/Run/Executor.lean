import Tabula.Run.Backend
import Tabula.Run.Compiled
import Tabula.Run.Saved

/-!
# Running queries

A query is compiled for the part of the catalog that it is from, its request is sent to the
backend, and the response is laid out. `Executor.run` does this for one query: it takes the state
of the backend and of the saved queries, and gives the state after the query beside the output.
A query that can not be compiled leaves the state alone.
-/

set_option autoImplicit false

namespace Tabula

/-! ## Output -/

/-- The result of a query, with the request that was sent and the name it was saved under. -/
structure Output where
  result : Formatted
  request : Json
  savedAs : Option String
  deriving Inhabited

def contentType : String := "application/json"

/-- An output as JSON, with what is known of the time it took. -/
def Output.toJson (timing : Json) (o : Output) : Json :=
  let about : Fields := [("format", .str o.result.format), ("content_type", .str contentType),
      ("timing", timing), ("es_query", o.request)]
    ++ (o.savedAs.map fun id => ("saved_as", Json.str id)).toList
  .obj (("meta", .obj about) :: o.result.body)

/-! ## Running -/

structure Executor where
  /-- The version that the backend reports. -/
  version : String
  options : Options
  /-- What precedes the name of a table in the name of its index. -/
  indexPrefix : String
  deriving Inhabited

/-- What running a query can change: the backend, and the saved queries when they are kept. -/
structure Session where
  backend : Backend
  saved : Option Saved
  deriving Inhabited

namespace Executor

/-- Compiles a query for the part of a catalog that it is from. -/
def compile (e : Executor) (catalog : Catalog) (q : Query) : QueryResult Compiled := do
  Compiled.ofQuery (← catalog.scopedTo (Path.splitHead q.table).2) e.version e.options q

def index (e : Executor) (q : Query) : String := e.indexPrefix ++ (Path.splitHead q.table).1

/-- Saves a query that asks for it where queries are kept, and gives the name it has there. A query
that was not read has nothing to keep, even when it asks. -/
def save (q : Query) (saved : Option Saved) : Option String × Option Saved :=
  match saved, q.written with
  | some saved, some source =>
      if q.save then (some (queryId source), some (saved.save source)) else (none, some saved)
  | saved, _ => (none, saved)

def run (e : Executor) (catalog : Catalog) (q : Query) (s : Session) :
    QueryResult Output × Session :=
  match e.compile catalog q with
  | .error cause => (.error cause, s)
  | .ok compiled =>
      let request := compiled.request
      let (reply, backend) := s.backend.search (e.index q) request
      match reply with
      | .error cause => (.error (.backendCall cause request), { s with backend })
      | .ok response =>
          match compiled.decode q response with
          | .error cause => (.error cause, { s with backend })
          | .ok result =>
              let (savedAs, saved) := save q s.saved
              (.ok { result, request, savedAs }, { backend, saved })

/-- Runs queries one after another. One that could not be read fails and changes nothing. -/
def runEach (e : Executor) (catalog : Catalog) :
    List (QueryResult Query) → Session → List (QueryResult Output) × Session
  | [], s => ([], s)
  | .error cause :: rest, s =>
      let (outputs, s) := runEach e catalog rest s
      (.error cause :: outputs, s)
  | .ok q :: rest, s =>
      let (output, s) := e.run catalog q s
      let (outputs, s) := runEach e catalog rest s
      (output :: outputs, s)

/-- Runs queries in order up to the first failure. -/
def runInOrder (e : Executor) (catalog : Catalog) :
    List Query → Session → QueryResult (List Output) × Session
  | [], s => (.ok [], s)
  | q :: rest, s =>
      match e.run catalog q s with
      | (.error cause, s) => (.error cause, s)
      | (.ok output, s) =>
          let (outputs, s) := runInOrder e catalog rest s
          (outputs.map (output :: ·), s)

/-- Runs queries together: they fail together, with the first failure. While a silent backend
keeps all of them waiting, a query that can not be compiled fails before any time is over. -/
def runTogether (e : Executor) (catalog : Catalog) (queries : List Query) (s : Session) :
    QueryResult (List Output) × Session :=
  match s.backend, queries.mapM (e.compile catalog) with
  | .silent _, .error cause => (.error cause, s)
  | _, _ => e.runInOrder catalog queries s

end Executor

end Tabula
