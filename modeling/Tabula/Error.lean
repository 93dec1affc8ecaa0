import Tabula.Json.Printer
import Tabula.Text.Quoted

/-!
# What can go wrong

`QueryError` lists the ways in which reading, compiling, running or formatting a query can fail,
each with what a message about it has to name; `QueryError.message` words them. `Malformed`
lists what can be wrong with the form of a query, and `BackendError` how a search can fail.
-/

set_option autoImplicit false

namespace Tabula

/-! ## The backend -/

inductive BackendError where
  /-- No answer within so many seconds. -/
  | timeout (seconds : Nat)
  /-- The connection failed before an answer arrived. -/
  | transport (reason : String)
  /-- The backend answered with an error. -/
  | remote (status : Nat) (reason : String)
  /-- No recorded response is left for a search of the index. -/
  | exhausted (index : String)
  deriving DecidableEq, Inhabited

namespace BackendError

def message : BackendError → String
  | timeout seconds => "request timed out after " ++ toString seconds ++ " seconds"
  | transport reason => "transport failure: " ++ reason
  | remote status reason =>
      "backend error: " ++ reason ++ " (status: " ++ toString status ++ ")"
  | exhausted index => "no recorded response left for index " ++ index

/-- Whether the same search may succeed later: the connection failed, the backend is overloaded,
or the fault is the backend's own. -/
def isRetriable : BackendError → Bool
  | timeout _ | transport _ => true
  | remote status _ => status == 429 || 500 ≤ status
  | exhausted _ => false

end BackendError

/-! ## Queries -/

/-- What can be wrong with the form of a query or of what it asks for. -/
inductive Malformed where
  /-- The argument of an operator has no form that the operator knows. -/
  | argument (op : String) (arg : Json)
  /-- An object that should name one operator names none or several. -/
  | notOneOperator (value : Json)
  | unknownOperator (op : String)
  /-- All leaves of a path have no common script. -/
  | scriptOfLeaves (name : String)
  | direction (value : Json)
  /-- A range domain lacks a number. -/
  | domainNumber (key : String)
  | selectWithoutValue (value : Json)
  | selectForm (value : Json)
  | domainForm (value : Json)
  | dimensionField (value : Json)
  | intervalNotPositive
  | domainType (name : String)
  | edgeWithoutName (value : Json)
  | edgeForm (value : Json)
  | sortForm (value : Json)
  | notAnObject (value : Json)
  | withoutFrom
  | edgesAndGroupby
  | infiniteRange (min max interval : Float)
  | emptyRange (min max interval : Float)
  | fineRange (min max interval partitions : Float) (limit : Nat)
  | partitionWithoutTest (value : Json)
  | setWithoutValue
  | rangeWithoutDomain (edge : String)
  | edgeWithoutValue (edge : String)
  | unsupportedVersion (version : String)
  deriving Inhabited

namespace Malformed

def rangeText (min max interval : Float) : String :=
  "range domain [" ++ messageText min ++ ", " ++ messageText max ++ ") with interval "
    ++ messageText interval

def message : Malformed → String
  | argument op arg =>
      "can not understand \x7b" ++ Text.quoted op ++ ": " ++ arg.compact ++ "\x7d"
  | notOneOperator v => "expecting a single operator, got " ++ v.compact
  | unknownOperator op => Text.quoted op ++ " is not a known operator"
  | scriptOfLeaves name => "can not script all leaves of " ++ name
  | direction v => "expecting sort direction, got " ++ v.compact
  | domainNumber key => "expecting numeric " ++ Text.quoted key ++ " in domain"
  | selectWithoutValue v => "select " ++ v.compact ++ " has no value"
  | selectForm v => "can not understand select " ++ v.compact
  | domainForm v => "can not understand domain " ++ v.compact
  | dimensionField v => "dimension field " ++ v.compact ++ " is not a name"
  | intervalNotPositive => "range domain needs a positive interval"
  | domainType name => "domain type " ++ Text.quoted name ++ " is not known"
  | edgeWithoutName v => "edge " ++ v.compact ++ " needs a name"
  | edgeForm v => "can not understand edge " ++ v.compact
  | sortForm v => "can not understand sort " ++ v.compact
  | notAnObject v => "expecting a query object, got " ++ v.compact
  | withoutFrom => "query needs a \"from\""
  | edgesAndGroupby => "edges and groupby can not be used together"
  | infiniteRange min max interval => rangeText min max interval ++ " is not finite"
  | emptyRange min max interval => rangeText min max interval ++ " is empty"
  | fineRange min max interval partitions limit =>
      rangeText min max interval ++ " has " ++ messageText partitions
        ++ " partitions, more than " ++ toString limit
  | partitionWithoutTest v =>
      "partition " ++ v.compact ++ " has neither a value expression nor a where clause"
  | setWithoutValue => "set domain needs a value or partition filters"
  | rangeWithoutDomain name => "edge " ++ name ++ " has a range value but no range domain"
  | edgeWithoutValue name => "edge " ++ name ++ " has no value"
  | unsupportedVersion version => "backend version " ++ version ++ " is not supported"

end Malformed

/-- The ways in which a query can fail. Each of them ends the whole query. -/
inductive QueryError where
  /-- A field has no column in the catalog. -/
  | unknownField (field : String)
  /-- An aggregate can not be taken of what it was asked for. -/
  | unsupportedAggregate (aggregate context : String)
  /-- One expression refers to columns at several nested paths. -/
  | crossPath (expr : String) (paths : List String)
  /-- A sort term names no edge. -/
  | unknownSortTarget (expr : String)
  | unsupportedFormat (name : String)
  /-- The search failed; carries the request that was sent. -/
  | backendCall (cause : BackendError) (request : Json)
  /-- The response could not be laid out. -/
  | formatting (row reason : String)
  /-- An index was asked of a discovered domain before counting was done. -/
  | domainNotFrozen (edge : String)
  | invalidQuery (cause : Malformed)
  /-- A result needs a longer list than there can be. No answer comes of it: the program ends. -/
  | tooLong
  deriving Inhabited

namespace QueryError

def message : QueryError → String
  | unknownField field => field ++ " does not exist in schema"
  | unsupportedAggregate aggregate context => aggregate ++ " is not supported " ++ context
  | crossPath expr paths =>
      "expression " ++ expr ++ " spans nested paths " ++ Text.quotedList paths
        ++ ", can not handle"
  | unknownSortTarget expr =>
      "can not sort by " ++ expr ++ ", can only sort by an existing edge expression"
  | unsupportedFormat name => "format " ++ Text.quoted name ++ " not supported yet"
  | backendCall cause _ => "backend call failed: " ++ cause.message
  | formatting row reason => "problem formatting row " ++ row ++ ": " ++ reason
  | domainNotFrozen edge =>
      "domain of edge " ++ Text.quoted edge ++ " is not known until counting is done"
  | invalidQuery cause => "invalid query: " ++ cause.message
  | tooLong => "capacity overflow"

end QueryError

/-- A computation over queries that may fail. -/
abbrev QueryResult := Except QueryError

def malformed {α : Type} (cause : Malformed) : QueryResult α := .error (.invalidQuery cause)

end Tabula
