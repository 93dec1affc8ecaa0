import Tabula.Expr.Basic
import Tabula.Search.Script

/-!
# Filter clauses

A filter is a condition that the backend tests on documents. The inductive type is its abstract
form, with a clause for each test and the boolean combinations, and `Filter.toJson` the form in
which requests hold it.
-/

set_option autoImplicit false

namespace Tabula

/-- Which of the nested documents that satisfy a filter come with a hit. -/
structure InnerHits where
  size : Option Nat
  columns : List String
  deriving DecidableEq, Inhabited

inductive Filter where
  | matchAll
  /-- A column holds a value. -/
  | term (column : String) (value : Json)
  /-- A column holds one of some values. -/
  | terms (column : String) (values : List Json)
  /-- A column holds a value beyond a bound. -/
  | range (column : String) (op : CompareOp) (bound : Json)
  /-- A column holds a text that starts with another. -/
  | startsWith (column : String) (start : String)
  /-- A column holds a value at all. -/
  | present (column : String)
  | script (source : Script)
  | all (filters : List Filter)
  | any (filters : List Filter)
  | not (filter : Filter)
  /-- Some nested document at a path satisfies a filter; such documents may come with a hit. -/
  | nested (path : String) (filter : Filter) (hits : Option InnerHits)
  /-- A filter has to be satisfied, others are only tried. -/
  | trying (filter : Filter) (tried : List Filter)
  /-- A clause given as it stands. -/
  | verbatim (body : Json)
  deriving Inhabited

def InnerHits.toJson (h : InnerHits) : Json :=
  let size : Fields := (h.size.map fun n => ("size", Json.nat n)).toList
  .obj (size ++ [("_source", .bool false), ("stored_fields", .texts h.columns)])

namespace Filter

def matchNone : Filter := .not .matchAll

def anyOf : List Filter → Filter
  | [] => matchNone
  | [f] => f
  | fs => .any fs

def allOf : List Filter → Filter
  | [] => .matchAll
  | [f] => f
  | fs => .all fs

mutual

def toJson : Filter → Json
  | matchAll => .obj [("match_all", .obj [])]
  | term column value => .obj [("term", .obj [(column, value)])]
  | terms column values => .obj [("terms", .obj [(column, .arr values)])]
  | range column op bound => .obj [("range", .obj [(column, .obj [(op.name, bound)])])]
  | startsWith column start => .obj [("prefix", .obj [(column, .str start)])]
  | present column => .obj [("exists", .obj [("field", .str column)])]
  | script source => .obj [("script", .obj [("script", source.toJson)])]
  | all fs => .obj [("bool", .obj [("filter", .arr (toJsonAll fs))])]
  | any fs =>
      .obj [("bool", .obj [("should", .arr (toJsonAll fs)), ("minimum_should_match", .nat 1)])]
  | not f => .obj [("bool", .obj [("must_not", toJson f)])]
  | nested path f hits =>
      let inner : Fields := (hits.map fun h => ("inner_hits", h.toJson)).toList
      .obj [("nested", .obj ([("path", .str path), ("query", toJson f)] ++ inner))]
  | trying f tried =>
      .obj [("bool", .obj [("filter", .arr [toJson f]), ("should", .arr (toJsonAll tried))])]
  | verbatim body => body

def toJsonAll : List Filter → List Json
  | [] => []
  | f :: rest => toJson f :: toJsonAll rest

end

end Filter

end Tabula
