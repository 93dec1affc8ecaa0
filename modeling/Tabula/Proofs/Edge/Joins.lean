import Tabula.Edge.Encoding
import Tabula.Proofs.Response.Markers

/-!
# The filters of an edge by name

An edge that knows its partitions by filters asks for each filter under the name of its partition,
and for the documents of no partition under a name of their own. Looking up the names gives the
filters back (`filter?_joinKey`, `filter?_missing`), whatever the tree below them is.
-/

set_option autoImplicit false

namespace Tabula

namespace Aggs

def filter? (name : String) (aggs : Aggs) : Option Filter :=
  match aggs.get? name with
  | some (.node (.filter f) _) => some f
  | _ => none

/-- Under the name of a partition stands its filter, and after the last one what follows. -/
theorem get?_joinNodes_append (inner rest : Aggs) (filters : List Filter) (i j : Nat) :
    get? (Marker.joinKey (i + j)) (joinNodes inner i filters ++ rest)
      = (filters[j]?.map fun f => Agg.node (.filter f) inner).or
          (get? (Marker.joinKey (i + j)) rest) := by
  induction filters generalizing i j with
  | nil => rfl
  | cons f filters ih =>
      rw [joinNodes, List.cons_append, get?]
      cases j with
      | zero =>
          rw [Nat.add_zero, if_pos rfl]
          rfl
      | succ j =>
          have hne : Marker.joinKey i ≠ Marker.joinKey (i + (j + 1)) := by
            intro h
            have := Marker.joinKey_inj.mp h
            omega
          have hshift : i + (j + 1) = i + 1 + j := by omega
          rw [if_neg hne, hshift, ih, List.getElem?_cons_succ]

theorem get?_joinNodes_append_of_ne {name : String} (h : ∀ i, Marker.joinKey i ≠ name)
    (inner rest : Aggs) (filters : List Filter) (i : Nat) :
    get? name (joinNodes inner i filters ++ rest) = get? name rest := by
  induction filters generalizing i with
  | nil => rfl
  | cons f filters ih =>
      rw [joinNodes, List.cons_append, get?, if_neg (h i)]
      exact ih (i + 1)

theorem joinKey_ne_missing (i : Nat) : Marker.joinKey i ≠ "_missing" := by
  intro h
  have hlist := congrArg String.toList h
  rw [Marker.toList_joinKey] at hlist
  cases hlist

variable (inner : Aggs) (filters : List Filter) (missing : Filter)

/-- **The name of a partition stands for its filter.** -/
theorem filter?_joinKey (i : Nat) :
    (joinAndMissing inner filters missing).filter? (Marker.joinKey i) = filters[i]? := by
  have hget := get?_joinNodes_append inner [("_missing", .node (.filter missing) inner)] filters 0 i
  have hmissing : get? (Marker.joinKey i) [("_missing", .node (.filter missing) inner)] = none := by
    rw [get?, if_neg (joinKey_ne_missing i).symm]
    rfl
  rw [Nat.zero_add, hmissing, Option.or_none] at hget
  rw [filter?, joinAndMissing, hget]
  cases filters[i]? <;> rfl

/-- **The name of the missing values stands for their filter.** -/
theorem filter?_missing :
    (joinAndMissing inner filters missing).filter? "_missing" = some missing := by
  have hget := get?_joinNodes_append_of_ne joinKey_ne_missing inner
    [("_missing", .node (.filter missing) inner)] filters 0
  have hself : get? "_missing" [("_missing", .node (.filter missing) inner)]
      = some (.node (.filter missing) inner) := if_pos rfl
  rw [filter?, joinAndMissing, hget, hself]

end Aggs

end Tabula
