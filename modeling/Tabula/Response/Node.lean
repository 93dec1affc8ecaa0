import Tabula.Json.Value

/-!
# Responses

The backend answers an aggregation tree with a tree of the same names. The names that structure
a tree are markers: wrappers are passed through (`drill`), the other markers hold the buckets of
one level, and everything else is payload. A bucket stands for a value, its key, and says how
many documents it holds.
-/

set_option autoImplicit false

namespace Tabula

/-! ## Markers -/

/-- What a name in a response tree stands for. -/
inductive Marker where
  /-- Wrapper of a filter. -/
  | filter
  /-- Wrapper of a step into or out of nested documents. -/
  | nested
  /-- The buckets of the values that an edge matched. -/
  | matched
  /-- The bucket of the documents that an edge did not match. -/
  | missing
  /-- The buckets of the values out of the domain. -/
  | other
  /-- The bucket of the partition at an index. -/
  | join (index : Nat)
  /-- A metric, or anything else that holds no buckets. -/
  | payload
  deriving DecidableEq, Inhabited

namespace Marker

def joinKey (index : Nat) : String := "_join_" ++ toString index

/-- The index in the name of a partition: decimal digits, below `2^64`. -/
def joinIndex? (name : String) : Option Nat :=
  match name.toList with
  | '_' :: 'j' :: 'o' :: 'i' :: 'n' :: '_' :: digits =>
      if digits.isEmpty || !digits.all Char.isDigit then none
      else
        let n := digits.foldl (fun n c => n * 10 + (c.toNat - '0'.toNat)) 0
        if n < Nat.pow 2 64 then some n else none
  | _ => none

def ofName (name : String) : Marker :=
  match name with
  | "_filter" => filter
  | "_nested" => nested
  | "_match" => matched
  | "_missing" => missing
  | "_other" => other
  | name =>
      match joinIndex? name with
      | some index => join index
      | none => payload

end Marker

/-! ## Nodes -/

namespace Response

mutual

/-- The node inside the wrappers of a node. A filter's wrapper goes before that of a step. -/
def drill : Json → Json
  | .obj fields =>
      match drillMember "_filter" fields with
      | some inner => inner
      | none =>
          match drillMember "_nested" fields with
          | some inner => inner
          | none => .obj fields
  | node => node

/-- The node inside the member of a name and its wrappers. -/
def drillMember (name : String) : List (String × Json) → Option Json
  | [] => none
  | (k, v) :: rest => if k = name then some (drill v) else drillMember name rest

end

def buckets (node : Json) : List Json :=
  match node.get? "buckets" with
  | some (.arr items) => items
  | _ => []

def docCount (node : Json) : Nat := ((node.get? "doc_count").bind Json.asNat?).getD 0

/-- The value that a bucket stands for. Booleans come as numbers with a text beside them. -/
def bucketKey (bucket : Json) : Json :=
  match bucket.get? "key", bucket.get? "key_as_string" with
  | some (.num _), some (.str "true") => .bool true
  | some (.num _), some (.str "false") => .bool false
  | some key, _ => key
  | none, _ => .null

/-- The number of documents that a search found, given as a number or as the member `value`. -/
def hitsTotal? (response : Json) : Option Nat := do
  let total ← (← response.get? "hits").get? "total"
  match total.asNat? with
  | some n => some n
  | none => (← total.get? "value").asNat?

/-- The tree of aggregations in a response, with the number of documents found as its own. -/
def root (response : Json) : Json :=
  match (response.get? "aggregations").getD (.obj []) with
  | .obj fields =>
      if Fields.has "doc_count" fields then .obj fields
      else match hitsTotal? response with
        | some n => .obj (fields ++ [("doc_count", .nat n)])
        | none => .obj fields
  | node => node

def follow (node : Json) : List String → Json
  | [] => node
  | key :: rest =>
      match node.get? key with
      | some inner => follow inner rest
      | none => .null

end Response

end Tabula
