import Tabula.Expr.Reader
import Tabula.Expr.Writer
import Tabula.Query.Basic

/-!
# Reading queries

A query is a JSON object with `from` and perhaps `select`, `edges`, `groupby`, `where`, `sort`,
`limit`, `format` and `meta`. Where a list is expected a single value may stand for itself, and
null for nothing. The clauses are read in this order: edges, groupby, select, where, sort,
format; the first fault ends the reading.
-/

set_option autoImplicit false

namespace Tabula

/-! ## Names -/

/-- The aggregate of a name, of which several have aliases. -/
def Aggregate.ofName (name : String) : QueryResult Aggregate :=
  match name with
  | "none" => .ok .plain
  | "count" | "N" | "s0" | "one" | "value_count" => .ok .count
  | "sum" | "add" | "s1" => .ok .sum
  | "min" | "minimum" => .ok .min
  | "max" | "maximum" => .ok .max
  | "avg" | "mean" | "average" => .ok .avg
  | "std" | "stddev" => .ok .std
  | "var" | "variance" => .ok .var
  | "s2" | "sum_of_squares" => .ok .sumOfSquares
  | "median" => .ok .median
  | "percentile" => .ok .percentile
  | "cardinality" => .ok .cardinality
  | "stats" => .ok .stats
  | "union" => .ok .union
  | "count_values" => .ok .countValues
  | other => .error (.unsupportedAggregate other "as an aggregate")

def Format.ofName (name : String) : QueryResult Format :=
  match name with
  | "list" => .ok .list
  | "table" => .ok .table
  | "cube" => .ok .cube
  | other => .error (.unsupportedFormat other)

/-- A direction, by name or by sign. -/
def Direction.ofJson (v : Json) : QueryResult Direction :=
  match v with
  | .str "asc" => .ok .asc
  | .str "desc" => .ok .desc
  | .num (.int 1) => .ok .asc
  | .num (.int (-1)) => .ok .desc
  | other => malformed (.direction other)

/-! ## Shared forms -/

def listOrSingle : Option Json → List Json
  | none | some .null => []
  | some (.arr items) => items
  | some single => [single]

def Fields.text? (key : String) (fields : Fields) : Option String :=
  (Fields.get? key fields).bind Json.asStr?

def Fields.nat? (key : String) (fields : Fields) : Option Nat :=
  (Fields.get? key fields).bind Json.asNat?

def domainNumber (key : String) (fields : Fields) : QueryResult Float :=
  match (Fields.get? key fields).bind Json.asFloat? with
  | some x => .ok x
  | none => malformed (.domainNumber key)

/-- The name of an expression that was given none: that of its field, or its own text. -/
def Expr.defaultName : Expr → String
  | .var name | .leaves name => name
  | e => e.text

/-! ## Selects -/

/-- The fraction that an aggregate takes a percentile at. -/
def percentileOf (aggregate : Aggregate) (fields : Fields) : QueryResult (Option Float) :=
  match aggregate with
  | .median => .ok (some 0.5)
  | .percentile =>
      match (Fields.get? "percentile" fields).bind Json.asFloat? with
      | some p => .ok (some p)
      | none =>
          .error (.unsupportedAggregate "percentile" "without a percentile between 0.0 and 1.0")
  | _ => .ok none

/-- The name of a select: as given, or that of the aggregate when the document itself is its
value, or that of its value. -/
def selectName (fields : Fields) (value : Expr) (aggregate : Aggregate) : String :=
  match Fields.text? "name" fields with
  | some name => name
  | none => if value.asVar? = some Path.root then aggregate.name else value.defaultName

def Select.ofJson (v : Json) : QueryResult Select :=
  match v with
  | .str name =>
      let value := Expr.ofName name
      .ok { name := value.defaultName, value, aggregate := .plain, percentile := none,
            default := .null }
  | .obj fields => do
      let aggregate ← match Fields.text? "aggregate" fields with
        | some name => Aggregate.ofName name
        | none => .ok .plain
      let value ← match Fields.get? "value" fields with
        | some value => Expr.ofJson value
        | none => if aggregate = .count then .ok .root else malformed (.selectWithoutValue v)
      let percentile ← percentileOf aggregate fields
      .ok { name := selectName fields value aggregate, value, aggregate, percentile,
            default := (Fields.get? "default" fields).getD aggregate.default }
  | other => malformed (.selectForm other)

/-! ## Edges -/

/-- Reads a partition: an object with a value or a condition, or else the value itself. -/
def Partition.ofJson (v : Json) : QueryResult Partition :=
  match v with
  | .obj fields =>
      if Fields.has "value" fields || Fields.has "where" fields then do
        let filter ← match Fields.get? "where" fields with
          | some w => some <$> Expr.ofJson w
          | none => .ok none
        .ok { name := Fields.text? "name" fields
              value := (Fields.get? "value" fields).getD
                ((Fields.get? "name" fields).getD .null)
              filter }
      else .ok { name := none, value := v, filter := none }
  | scalar => .ok { name := none, value := scalar, filter := none }

def dimensionField (v : Json) : QueryResult String :=
  match v with
  | .str name => .ok name
  | other => malformed (.dimensionField other)

def Domain.rangeOfJson (fields : Fields) : QueryResult Domain := do
  let interval ← domainNumber "interval" fields
  if interval ≤ 0.0 then malformed .intervalNotPositive
  else
    let min ← domainNumber "min" fields
    let max ← domainNumber "max" fields
    .ok (.range min max interval)

/-- Reads a domain of a named type; no name is that of a discovered domain. -/
def Domain.ofType (type : Option String) (fields : Fields) : QueryResult Domain :=
  match type with
  | some "set" =>
      .set <$> (listOrSingle (Fields.get? "partitions" fields)).mapM Partition.ofJson
  | some "range" | some "numeric" => Domain.rangeOfJson fields
  | some "default" | none =>
      match Fields.get? "sort" fields with
      | some sort => do .ok (.discovered (some (← Direction.ofJson sort)))
      | none => .ok (.discovered none)
  | some other => malformed (.domainType other)

/-- Reads a domain and the limit on its partitions. -/
def Domain.ofJson (v : Option Json) : QueryResult (Domain × Option Nat) :=
  match v with
  | none | some .null => .ok (.discovered none, none)
  | some (.obj fields) => do
      let domain ← match Fields.get? "dimension" fields with
        | some (.obj inner) =>
            .dimension <$> (listOrSingle (Fields.get? "fields" inner)).mapM dimensionField
        | _ => Domain.ofType (Fields.text? "type" fields) fields
      .ok (domain, Fields.nat? "limit" fields)
  | some other => malformed (.domainForm other)

def Span.ofJson? (v : Option Json) : QueryResult (Option Span) :=
  match v with
  | some (.obj fields) => do
      let min ← Expr.ofJson ((Fields.get? "min" fields).getD .null)
      let max ← Expr.ofJson ((Fields.get? "max" fields).getD .null)
      .ok (some { min, max })
  | _ => .ok none

/-- Reads an edge: the name of a field, or an object. -/
def Edge.ofJson (v : Json) : QueryResult Edge :=
  match v with
  | .str name => .ok (.ofField name)
  | .obj fields => do
      let (domain, limit) ← Domain.ofJson (Fields.get? "domain" fields)
      let value ← match Fields.get? "value" fields with
        | some value => some <$> Expr.ofJson value
        | none => .ok none
      let span ← Span.ofJson? (Fields.get? "range" fields)
      let name ← match Fields.text? "name" fields, value with
        | some name, _ => .ok name
        | none, some value => .ok value.defaultName
        | none, none => malformed (.edgeWithoutName v)
      let allowNulls :=
        ((Fields.get? "allowNulls" fields).or (Fields.get? "allow_nulls" fields)).bind Json.asBool?
      .ok { name, value, span, domain
            limit := limit.or (Fields.nat? "limit" fields)
            allowNulls := allowNulls.getD true }
  | other => malformed (.edgeForm other)

/-! ## Sorts -/

/-- Reads a sort: a field, an expression with a direction, or fields with their directions. -/
def SortTerm.ofJson (v : Json) : QueryResult (List SortTerm) :=
  match v with
  | .str name => .ok [{ value := Expr.ofName name, direction := .asc }]
  | .obj fields =>
      match Fields.get? "value" fields with
      | some value => do
          let value ← Expr.ofJson value
          let direction ← match Fields.get? "sort" fields with
            | some direction => Direction.ofJson direction
            | none => .ok .asc
          .ok [{ value, direction }]
      | none => fields.mapM fun (field, direction) => do
          .ok { value := .var field, direction := ← Direction.ofJson direction }
  | other => malformed (.sortForm other)

/-! ## Queries -/

/-- The select of a query that names none: everything, or a count for each group. -/
def defaultSelects (grouped : Bool) : List Select × SelectShape :=
  if grouped then ([.count], .list)
  else
    ([{ name := Path.root, value := .leaves Path.root, aggregate := .plain, percentile := none,
        default := .null }], .single)

def selectsOfJson (v : Option Json) (grouped : Bool) : QueryResult (List Select × SelectShape) :=
  match v with
  | none | some .null => .ok (defaultSelects grouped)
  | some (.arr items) => do .ok (← items.mapM Select.ofJson, .list)
  | some single => do .ok ([← Select.ofJson single], .single)

namespace Query

def ofJson (v : Json) : QueryResult Query :=
  match v with
  | .obj fields => do
      let table ← match Fields.text? "from" fields with
        | some table => .ok table
        | none => malformed .withoutFrom
      let edges ← (listOrSingle (Fields.get? "edges" fields)).mapM Edge.ofJson
      let groupby ← (listOrSingle (Fields.get? "groupby" fields)).mapM Edge.ofJson
      if !edges.isEmpty && !groupby.isEmpty then malformed .edgesAndGroupby
      else
        let (selects, shape) ←
          selectsOfJson (Fields.get? "select" fields) (!edges.isEmpty || !groupby.isEmpty)
        let condition ← match Fields.get? "where" fields with
          | some w => Expr.ofJson w
          | none => .ok .truth
        let sort ← (listOrSingle (Fields.get? "sort" fields)).mapM SortTerm.ofJson
        let format ← match Fields.text? "format" fields with
          | some name => Format.ofName name
          | none => .ok .list
        let save := ((Fields.get? "meta" fields).bind (Json.get? "save")).bind Json.asBool?
        .ok { table, selects, shape, edges
              -- groups are sorted by the query alone
              groupby := groupby.map fun e => { e with domain := e.domain.sorted none }
              condition
              sort := sort.flatten
              limit := Fields.nat? "limit" fields
              format
              save := save.getD false
              written := some v }
  | other => malformed (.notAnObject other)

end Query

end Tabula
