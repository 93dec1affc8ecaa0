import Tabula.Json.Printer
import Tabula.Number.Reader
import Tabula.Response.Node

/-!
# Reading results

A pull says how the value of a select is read from the node of a row. `Pull.apply` carries it
out; it never fails, and what is not there reads as null.
-/

set_option autoImplicit false

namespace Tabula

inductive Pull where
  | constant (value : Json)
  /-- Along a path of names. -/
  | path (keys : List String)
  /-- The first value that is not null. -/
  | coalesce (pulls : List Pull)
  /-- The sum of the numbers, null when there are none. -/
  | sum (pulls : List Pull)
  /-- One of the percentiles found at a path. -/
  | percentile (keys : List String) (percent : Float)
  /-- The statistics and the median found at two paths. -/
  | stats (stats median : List String)
  /-- The distinct elements of several arrays. -/
  | union (pulls : List Pull)
  /-- Counts by value, added up. -/
  | mergeCounts (pulls : List Pull)
  /-- The keys of the buckets at a path. -/
  | bucketKeys (keys : List String)
  /-- The number of documents in each bucket at a path. -/
  | bucketCounts (keys : List String)
  deriving Inhabited

/-! ## Joining values -/

def addDistinct (out : List Json) (items : List Json) : List Json :=
  items.foldl (fun out item => if item.containedIn out then out else out ++ [item]) out

/-- The elements of an array; none of null; any other value is its own only element. -/
def elementsOf : Json → List Json
  | .arr items => items
  | .null => []
  | single => [single]

/-- The distinct elements of several values, in the order of their first occurrence. -/
def unionOf (values : List Json) : Json := .arr (addDistinct [] (values.flatMap elementsOf))

def addCount (counts : Fields) (entry : String × Json) : Fields :=
  let number (v : Option Json) : Float := (v.bind Json.asFloat?).getD 0.0
  Fields.insert entry.1
    (.ofComputed (number (Fields.get? entry.1 counts) + number (some entry.2))) counts

/-- Counts by value, added up. What holds no counts is left out. -/
def mergeCounts (values : List Json) : Json :=
  .obj ((values.flatMap fun v => (v.asObj?).getD []).foldl addCount [])

/-! ## Percentiles -/

/-- Whether a name writes a percent, up to a millionth. -/
def namesPercent (percent : Float) (name : String) : Bool :=
  match Double.ofText? name with
  | some p => (p - percent).abs < 1e-6
  | none => false

/-- The value of a percent among percentiles, whose names may write it in different ways. The
usual way goes first. -/
def percentileValue (values : Json) (percent : Float) : Json :=
  match values.get? (Layout.percentKey.write percent) with
  | some v => v
  | none =>
      match values with
      | .obj fields => ((fields.find? fun f => namesPercent percent f.1).map (·.2)).getD .null
      | _ => .null

/-- The members of the statistics that a select gives, each with its name in the response. -/
def statsFields : List (String × String) :=
  [("count", "count"), ("sum", "sum"), ("min", "min"), ("max", "max"), ("avg", "avg"),
    ("sos", "sum_of_squares"), ("std", "std_deviation"), ("var", "variance")]

/-- The text under which the bucket of a key is counted. -/
def countName : Json → String
  | .str s => s
  | v => v.compact

namespace Pull

def percentileAt (node : Json) (keys : List String) (percent : Float) : Json :=
  percentileValue ((Response.follow node keys).getD "values") percent

mutual

def apply (node : Json) : Pull → Json
  | constant v => v
  | path keys => Response.follow node keys
  | coalesce pulls => ((applyAll node pulls).find? fun v => !v.isNull).getD .null
  | sum pulls =>
      match (applyAll node pulls).filterMap Json.asFloat? with
      | [] => .null
      | numbers => .ofComputed (numbers.foldl (· + ·) 0.0)
  | percentile keys percent => percentileAt node keys percent
  | stats keys median =>
      let found := Response.follow node keys
      .obj (statsFields.map (fun f => (f.1, found.getD f.2))
        ++ [("median", percentileAt node median 50.0)])
  | union pulls => unionOf (applyAll node pulls)
  | mergeCounts pulls => Tabula.mergeCounts (applyAll node pulls)
  | bucketKeys keys =>
      .arr ((Response.buckets (Response.follow node keys)).map Response.bucketKey)
  | bucketCounts keys =>
      .obj (Fields.ofList ((Response.buckets (Response.follow node keys)).map fun b =>
        (countName (Response.bucketKey b), .nat (Response.docCount b))))

def applyAll (node : Json) : List Pull → List Json
  | [] => []
  | p :: rest => apply node p :: applyAll node rest

end

end Pull

end Tabula
