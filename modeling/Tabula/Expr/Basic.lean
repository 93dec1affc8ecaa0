import Tabula.Json.Value
import Tabula.Path
import Tabula.Text.Order

/-!
# Expressions

An expression refers to fields of a document and computes a value from them. This file holds the
type, the field references of an expression (`Expr.vars`), the parts of a conjunction
(`Expr.conjuncts`), and sameness of expressions up to the order of object members.
-/

set_option autoImplicit false

namespace Tabula

/-! ## Operators -/

inductive CompareOp where
  | eq
  | ne
  | gt
  | gte
  | lt
  | lte
  deriving DecidableEq, Inhabited

namespace CompareOp

def name : CompareOp → String
  | eq => "eq"
  | ne => "ne"
  | gt => "gt"
  | gte => "gte"
  | lt => "lt"
  | lte => "lte"

def symbol : CompareOp → String
  | eq => "=="
  | ne => "!="
  | gt => ">"
  | gte => ">="
  | lt => "<"
  | lte => "<="

/-- The comparison that says the same with its operands exchanged. -/
def flip : CompareOp → CompareOp
  | gt => lt
  | gte => lte
  | lt => gt
  | lte => gte
  | op => op

def holds : CompareOp → Ordering → Bool
  | gt, o => o.isGT
  | gte, o => o.isGE
  | lt, o => o.isLT
  | lte, o => o.isLE
  | eq, o => o.isEq
  | ne, o => o.isNe

end CompareOp

inductive ArithOp where
  | add
  | sub
  | mul
  | div
  deriving DecidableEq, Inhabited

namespace ArithOp

def name : ArithOp → String
  | add => "add"
  | sub => "sub"
  | mul => "mul"
  | div => "div"

def symbol : ArithOp → String
  | add => "+"
  | sub => "-"
  | mul => "*"
  | div => "/"

def apply : ArithOp → Float → Float → Float
  | add, a, b => a + b
  | sub, a, b => a - b
  | mul, a, b => a * b
  | div, a, b => a / b

end ArithOp

/-! ## Expressions -/

inductive Expr where
  | literal (value : Json)
  /-- A field. The field `.` is the whole document. -/
  | var (name : String)
  /-- All leaves at or below a path. -/
  | leaves (path : String)
  | tuple (terms : List Expr)
  | compare (op : CompareOp) (lhs rhs : Expr)
  | and (terms : List Expr)
  | or (terms : List Expr)
  | not (term : Expr)
  | present (term : Expr)
  | missing (term : Expr)
  /-- Whether a text starts with another. -/
  | startsWith (term : Expr) (start : String)
  | oneOf (term : Expr) (values : List Json)
  | arith (op : ArithOp) (terms : List Expr)
  /-- The first of several values that is there. -/
  | coalesce (terms : List Expr)
  deriving Inhabited

namespace Expr

def null : Expr := .literal .null
def truth : Expr := .literal (.bool true)
def falsity : Expr := .literal (.bool false)

def root : Expr := .var Path.root

def isTrue : Expr → Bool
  | literal (.bool true) => true
  | _ => false

def isFalse : Expr → Bool
  | literal (.bool false) => true
  | _ => false

def isNull : Expr → Bool
  | literal .null => true
  | _ => false

def isLiteral : Expr → Bool
  | literal _ => true
  | _ => false

/-- The field, when the expression is nothing but a reference to one. -/
def asVar? : Expr → Option String
  | var name => some name
  | _ => none

/-! ## Field references -/

mutual

/-- The field references of an expression, from left to right. -/
def references : Expr → List String
  | literal _ => []
  | var name => [name]
  | leaves path => [path]
  | compare _ lhs rhs => references lhs ++ references rhs
  | not t | present t | missing t | startsWith t _ | oneOf t _ => references t
  | tuple ts | and ts | or ts | coalesce ts | arith _ ts => referencesAll ts

def referencesAll : List Expr → List String
  | [] => []
  | t :: rest => references t ++ referencesAll rest

end

def vars (e : Expr) : List String := Text.setOf e.references

/-! ## Conjuncts -/

mutual

/-- The terms of a conjunction, those of inner conjunctions included; any other expression is
its own only conjunct, but for the literal true, which has none. -/
def conjuncts : Expr → List Expr
  | and ts => conjunctsAll ts
  | e => if e.isTrue then [] else [e]

def conjunctsAll : List Expr → List Expr
  | [] => []
  | t :: rest => conjuncts t ++ conjunctsAll rest

end

/-! ## Sameness -/

mutual

/-- Whether two expressions are the same but for the order of members in their literals. -/
def same : Expr → Expr → Bool
  | literal a, literal b => a.same b
  | var a, var b => a == b
  | leaves a, leaves b => a == b
  | tuple as, tuple bs => sameAll as bs
  | compare op a b, compare op' a' b' => op == op' && same a a' && same b b'
  | and as, and bs => sameAll as bs
  | or as, or bs => sameAll as bs
  | not a, not b => same a b
  | present a, present b => same a b
  | missing a, missing b => same a b
  | startsWith a s, startsWith b s' => same a b && s == s'
  | oneOf a vs, oneOf b vs' => same a b && Json.sameItems vs vs'
  | arith op as, arith op' bs => op == op' && sameAll as bs
  | coalesce as, coalesce bs => sameAll as bs
  | _, _ => false

def sameAll : List Expr → List Expr → Bool
  | [], [] => true
  | a :: as, b :: bs => same a b && sameAll as bs
  | _, _ => false

end

end Expr

end Tabula
