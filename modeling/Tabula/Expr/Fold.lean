import Tabula.Expr.Basic

/-!
# Folding constants

`Expr.fold` computes what can be known about an expression without a document: operators of
literals become literals, conjunctions and disjunctions lose what does not matter and take in
their inner ones. Null is what a comparison with an absent value yields; as a condition it counts
as false. Each operator has its own step, a function of its folded operands.
-/

set_option autoImplicit false

namespace Tabula.Expr

/-! ## Steps -/

/-- The order of two values of one scalar type. -/
def order? : Json → Json → Option Ordering
  | .num x, .num y => some (Ord.compare x.orderKey y.orderKey)
  | .str x, .str y => some (Ord.compare x y)
  | .bool x, .bool y => some (Ord.compare x y)
  | _, _ => none

/-- Compares two literals. Null equals null only; values that have no common order are neither
below nor above each other, which is neither true nor false. -/
def foldCompare (op : CompareOp) (a b : Json) : Expr :=
  if a.isNull || b.isNull then
    match op with
    | .eq => .literal (.bool (a.isNull && b.isNull))
    | .ne => .literal (.bool (a.isNull != b.isNull))
    | _ => null
  else
    match op with
    | .eq => .literal (.bool (a.same b))
    | .ne => .literal (.bool (!a.same b))
    | _ =>
        match order? a b with
        | some o => .literal (.bool (op.holds o))
        | none => null

def andTerms : Expr → List Expr
  | and inner => inner
  | t => if t.isTrue then [] else [t]

def foldAnd (terms : List Expr) : Expr :=
  if terms.any fun t => t.isFalse || t.isNull then falsity
  else match terms.flatMap andTerms with
    | [] => truth
    | [t] => t
    | kept => .and kept

def orTerms : Expr → List Expr
  | or inner => inner
  | t => if t.isFalse || t.isNull then [] else [t]

def foldOr (terms : List Expr) : Expr :=
  if terms.any isTrue then truth
  else match terms.flatMap orTerms with
    | [] => falsity
    | [t] => t
    | kept => .or kept

def foldNot : Expr → Expr
  | literal (.bool b) => .literal (.bool (!b))
  | literal .null => null
  | not t => t
  | t => .not t

def foldPresent : Expr → Expr
  | literal v => .literal (.bool (!v.isNull))
  | t => .present t

def foldMissing : Expr → Expr
  | literal v => .literal (.bool v.isNull)
  | t => .missing t

def foldStartsWith (start : String) : Expr → Expr
  | literal (.str s) => .literal (.bool (start.toList.isPrefixOf s.toList))
  | literal _ => falsity
  | t => .startsWith t start

def foldOneOf (values : List Json) (t : Expr) : Expr :=
  if values.isEmpty then falsity
  else match t with
    | literal v => .literal (.bool (v.containedIn values))
    | t => .oneOf t values

def asNumber? : Expr → Option Float
  | literal v => v.asFloat?
  | _ => none

/-- A computation over folded terms, carried out from left to right when all are numbers. -/
def foldArith (op : ArithOp) (terms : List Expr) : Expr :=
  match terms.mapM asNumber? with
  | some (x :: xs) => .literal (.ofComputed (xs.foldl op.apply x))
  | _ => .arith op terms

/-- The terms that may provide the value: those that are not null, up to the first literal. -/
def candidates : List Expr → List Expr
  | [] => []
  | t :: rest =>
      if t.isNull then candidates rest else if t.isLiteral then [t] else t :: candidates rest

def foldCoalesce (terms : List Expr) : Expr :=
  match candidates terms with
  | [] => null
  | [t] => t
  | kept => .coalesce kept

/-! ## Folding -/

mutual

/-- Computes what does not depend on a document. -/
def fold : Expr → Expr
  | literal v => .literal v
  | var name => .var name
  | leaves path => .leaves path
  | tuple ts => .tuple (foldAll ts)
  | compare op a b =>
      match fold a, fold b with
      | literal x, literal y => foldCompare op x y
      | a, b => .compare op a b
  | and ts => foldAnd (foldAll ts)
  | or ts => foldOr (foldAll ts)
  | not t => foldNot (fold t)
  | present t => foldPresent (fold t)
  | missing t => foldMissing (fold t)
  | startsWith t start => foldStartsWith start (fold t)
  | oneOf t values => foldOneOf values (fold t)
  | arith op ts => foldArith op (foldAll ts)
  | coalesce ts => foldCoalesce (foldAll ts)

def foldAll : List Expr → List Expr
  | [] => []
  | t :: rest => fold t :: foldAll rest

end

end Tabula.Expr
