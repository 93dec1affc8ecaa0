import Tabula.Response.Node

/-!
# Rows of a response

Each way down a response tree, through one bucket of every level, is a row: the buckets passed,
outermost first, and the node reached. Rows come in the order of the tree.
-/

set_option autoImplicit false

namespace Tabula

/-- One step down a response tree. -/
inductive Part where
  /-- Into a bucket of the values that an edge matched. -/
  | matched (ordinal : Nat) (bucket : Json)
  /-- Into the bucket of what an edge did not match. -/
  | missing (bucket : Json)
  /-- Into a bucket of values out of the domain. -/
  | other
  /-- Into the bucket of the partition at an index. -/
  | join (index : Nat) (bucket : Json)
  deriving Inhabited

namespace Part

/-- The value that a step stands for; null for what is missing or out of the domain. -/
def key : Part → Json
  | matched _ bucket => Response.bucketKey bucket
  | join index _ => .nat index
  | missing _ | other => .null

def docCount : Part → Nat
  | matched _ bucket | join _ bucket | missing bucket => Response.docCount bucket
  | other => 0

end Part

/-- A way down a response tree and the node it leads to. -/
structure PathRow where
  parts : List Part
  node : Json
  deriving Inhabited

namespace Response

def below (part : Part) (rows : List PathRow) : List PathRow :=
  rows.map fun row => { row with parts := part :: row.parts }

/-- The steps into the buckets of a matched list, from an ordinal on. -/
def matchedSteps : Nat → List Json → List (Part × Json)
  | _, [] => []
  | n, bucket :: rest => (.matched n bucket, bucket) :: matchedSteps (n + 1) rest

/-- The steps that a member of a node offers, each with the node it leads to. -/
def steps (name : String) (child : Json) : List (Part × Json) :=
  match Marker.ofName name with
  | .matched => matchedSteps 0 (buckets (drill child))
  | .other => (buckets child).map fun bucket => (.other, bucket)
  | .missing => [(.missing (drill child), drill child)]
  | .join index => [(.join index child, child)]
  | .filter | .nested | .payload => []

/-- The rows a number of levels below a node. -/
def walk : Nat → Json → List PathRow
  | 0, node => [{ parts := [], node := drill node }]
  | levels + 1, node =>
      match drill node with
      | .obj children =>
          (children.flatMap fun child => steps child.1 child.2).flatMap fun (part, node) =>
            below part (walk levels node)
      | _ => []

end Response

end Tabula
