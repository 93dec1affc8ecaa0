import Tabula.Hits.Format
import Tabula.Result.Grouped

/-!
# Compiled queries

A query with edges or with an aggregate is answered by aggregations, every other one by hits.
`Compiled.ofQuery` chooses and compiles, `Compiled.decode` turns the response into the result.
-/

set_option autoImplicit false

namespace Tabula

/-! ## Versions -/

/-- How the versions begin for which requests can be written. -/
def supportedVersions : List String := ["1.4.", "1.5.", "1.6.", "1.7.", "5.", "6.", "7."]

def isSupported (version : String) : Bool :=
  supportedVersions.any fun start => start.toList.isPrefixOf version.toList

/-! ## Operations -/

inductive Operation where
  | aggregation
  | projection
  deriving DecidableEq, Inhabited

namespace Operation

def name : Operation → String
  | aggregation => "aggregation"
  | projection => "setop"

def ofQuery (q : Query) (version : String) : QueryResult Operation :=
  if !isSupported version then malformed (.unsupportedVersion version)
  else if !q.grouping.isEmpty || q.selects.any (·.aggregate != .plain) then .ok aggregation
  else .ok projection

end Operation

/-! ## Compiled queries -/

inductive Compiled where
  | grouping (plan : GroupingPlan)
  | hits (plan : HitsPlan)
  deriving Inhabited

namespace Compiled

def request : Compiled → Json
  | grouping p => p.request
  | hits p => p.request

def ofQuery (catalog : Catalog) (version : String) (options : Options) (q : Query) :
    QueryResult Compiled := do
  let options := options.forVersion version
  match ← Operation.ofQuery q version with
  | .aggregation => .grouping <$> Grouping.compile catalog options q
  | .projection => .hits <$> Hits.compile catalog options q

def decode (q : Query) (c : Compiled) (response : Json) : QueryResult Formatted :=
  match c with
  | grouping p => do
      let root := Response.root response
      let p := { p with decoders := ← Grouping.countAll root p.decoders }
      Grouping.format q p (← Grouping.rows root p.decoders)
  | hits p => Hits.format q p response

end Compiled

end Tabula
