import Tabula.Metrics.Pull
import Tabula.Query.Basic

/-!
# Combining partial results

Two rows may belong to the same cell, each with the result of an aggregate over its own
documents. Where the aggregate over all of them follows from the two it is computed; where it
does not, the cell is null.
-/

set_option autoImplicit false

namespace Tabula.Aggregate

def order? : Json → Json → Option Ordering
  | .str a, .str b => some (compare a b)
  | .num a, .num b => some (compare a.orderKey b.orderKey)
  | _, _ => none

/-- Keeps the first of two values when it comes in the wanted order, or is equal. -/
def better (wanted : Ordering) (a b : Json) : Json :=
  match order? a b with
  | some o => if o = wanted ∨ o = .eq then a else b
  | none => .null

/-- The sum of two numbers; anything else counts as zero. -/
def sumOf (a b : Json) : Json := .ofComputed (a.asFloat?.getD 0.0 + b.asFloat?.getD 0.0)

/-- The result over two disjoint groups of documents. Null is the result over none. -/
def combine (aggregate : Aggregate) (a b : Json) : Json :=
  if a.isNull then b
  else if b.isNull then a
  else match aggregate with
    | .count | .sum | .sumOfSquares => sumOf a b
    | .min => better .lt a b
    | .max => better .gt a b
    | .plain => a
    | .union => unionOf [a, b]
    | .countValues => mergeCounts [a, b]
    | _ => .null

end Tabula.Aggregate
