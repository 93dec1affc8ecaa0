import Tabula.Expr.Fold
import Tabula.Search.Filter

/-!
# What filters mean

Whether a document satisfies a filter follows from the clauses that it satisfies: the boolean
combinations mean what they say (`Filter.meets`). A document that is known by what it stores in its
columns satisfies a clause on a column when the stored value passes the clause's test
(`Document.test`).
-/

set_option autoImplicit false

namespace Tabula

namespace Filter

/-! ## Boolean combinations -/

mutual

/-- Whether a document satisfies a filter, by the test of the clauses that are no combinations. -/
def meets (test : Filter → Bool) : Filter → Bool
  | matchAll => true
  | all fs => meetsAll test fs
  | any fs => meetsAny test fs
  | not f => !meets test f
  | trying f _ => meets test f
  | f => test f

def meetsAll (test : Filter → Bool) : List Filter → Bool
  | [] => true
  | f :: rest => meets test f && meetsAll test rest

def meetsAny (test : Filter → Bool) : List Filter → Bool
  | [] => false
  | f :: rest => meets test f || meetsAny test rest

end

variable (test : Filter → Bool)

theorem meets_all (fs : List Filter) : (all fs).meets test = fs.all (meets test) := by
  rw [meets]
  induction fs with
  | nil => rfl
  | cons f fs ih => rw [meetsAll, ih, List.all_cons]

theorem meets_any (fs : List Filter) : (any fs).meets test = fs.any (meets test) := by
  rw [meets]
  induction fs with
  | nil => rfl
  | cons f fs ih => rw [meetsAny, ih, List.any_cons]

theorem meets_not (f : Filter) : (not f).meets test = !f.meets test := by rw [meets]

theorem meets_matchNone : matchNone.meets test = false := by
  rw [matchNone, meets_not, meets]
  rfl

/-- A disjunction in its short form is satisfied when some of the filters is. -/
theorem meets_anyOf (fs : List Filter) : (anyOf fs).meets test = fs.any (meets test) := by
  cases fs with
  | nil => exact meets_matchNone test
  | cons f rest =>
      cases rest with
      | nil => rw [anyOf, List.any_cons, List.any_nil, Bool.or_false]
      | cons g rest => exact meets_any test (f :: g :: rest)

end Filter

/-! ## Clauses -/

def Json.startsWith (start : String) : Json → Bool
  | .str s => start.toList.isPrefixOf s.toList
  | _ => false

/-- A document, by the value that it stores in each column. -/
abbrev Document := String → Option Json

/-- Whether a document satisfies a clause. -/
def Document.test (doc : Document) : Filter → Bool
  | .term column value => (doc column).any (·.same value)
  | .terms column values => (doc column).any (·.containedIn values)
  | .range column op bound => (doc column).any fun v => (Expr.order? v bound).any op.holds
  | .startsWith column start => (doc column).any (Json.startsWith start)
  | .present column => (doc column).isSome
  | _ => false

end Tabula
