import Tabula.Grouping.Plan
import Tabula.Response.Walk

/-!
# Rows of an aggregation

Reading a response takes two passes over its rows: the first counts the values of discovered
domains, the second places each row by one partition index for each decoder. A row that some
decoder can not place is dropped.
-/

set_option autoImplicit false

namespace Tabula

/-- A row with its place: one partition index for each decoder. -/
structure Row where
  coord : List Nat
  node : Json
  deriving Inhabited

namespace Grouping

def levels (decoders : List Decoder) : Nat :=
  decoders.foldl (fun n d => max n (d.start + d.levels)) 0

def countRow (decoders : List Decoder) (row : PathRow) : QueryResult (List Decoder) :=
  decoders.mapM fun d => d.count row.parts

/-- Counts a response, if there is a domain to discover, and settles all domains. -/
def countAll (root : Json) (decoders : List Decoder) : QueryResult (List Decoder) := do
  let counted ←
    if decoders.any (·.kind.isDiscovery) then
      (Response.walk (levels decoders) root).foldlM countRow decoders
    else .ok decoders
  .ok (counted.map Decoder.doneCount)

/-- The place of a row, none when it is dropped. -/
def coord? (parts : List Part) : List Decoder → QueryResult (Option (List Nat))
  | [] => .ok (some [])
  | d :: rest => do
      match ← d.index? parts with
      | none => .ok none
      | some i => .ok ((← coord? parts rest).map (i :: ·))

/-- The rows of a response that can be placed, in the order of the response. -/
def rows (root : Json) (decoders : List Decoder) : QueryResult (List Row) := do
  let placed ← (Response.walk (levels decoders) root).mapM fun row => do
    .ok ((← coord? row.parts decoders).map fun coord => { coord, node := row.node : Row })
  .ok (placed.filterMap id)

end Grouping

end Tabula
