import Tabula.Error
import Tabula.Expr.Basic

/-!
# Reading expressions

A text names a field, other scalars stand for themselves, an array is a tuple, and an object with
one member applies the operator of that name. Most operators take a list, a pair, or a single
operand in place of a list. `Expr.reading` reads a value once in each way in which an operator
may want it, so that reading an expression takes one pass.
-/

set_option autoImplicit false

namespace Tabula.Expr

/-- The field or fields that a text names: `*` and `a.*` stand for leaves. -/
def ofName (name : String) : Expr :=
  if name = "*" then .leaves Path.root
  else match name.toList.reverse with
    | '*' :: '.' :: rest => .leaves (String.ofList rest.reverse)
    | _ => .var name

/-- A value read as one expression, and if it is an array, also element by element. -/
structure Reading where
  whole : QueryResult Expr
  items : List (QueryResult Expr)
  deriving Inhabited

/-- The first error of several results, else their values. -/
def sequence {α : Type} : List (QueryResult α) → QueryResult (List α)
  | [] => .ok []
  | r :: rest => do
      let a ← r
      let as ← sequence rest
      .ok (a :: as)

/-! ## Operands -/

def badArgument {α : Type} (op : String) (arg : Json) : QueryResult α :=
  malformed (.argument op arg)

/-- A list of operands; a single one may stand for itself. -/
def operands (op : String) (arg : Json) (r : Reading) : QueryResult (List Expr) :=
  match arg with
  | .arr _ => sequence r.items
  | .null => badArgument op arg
  | _ => do
      let e ← r.whole
      .ok [e]

/-- A field by name, or any expression. A text always names one field. -/
def fieldOperand (op : String) (arg : Json) (r : Reading) : QueryResult Expr :=
  match arg with
  | .str name => .ok (.var name)
  | .obj fields =>
      match Fields.get? "field" fields with
      | some (.str name) => .ok (.var name)
      | _ => r.whole
  | _ => badArgument op arg

/-- A value to compare with, out of its `literal` wrapping if it has one. -/
def unwrapLiteral : Json → Json
  | .obj fields => (Fields.get? "literal" fields).getD (.obj fields)
  | v => v

/-- An expression and a value: `[expression, value]`, or an object that names a field. -/
def pairOperand (op : String) (arg : Json) (r : Reading) : QueryResult (Expr × Json) :=
  match arg, r.items with
  | .obj [(field, value)], _ => .ok (.var field, value)
  | .arr [_, value], [first, _] => do
      let e ← first
      .ok (e, unwrapLiteral value)
  | _, _ => badArgument op arg

/-- A comparison: `[left, right]`, or an object that gives one value for each of some fields. -/
def comparison (cmp : CompareOp) (op : String) (arg : Json) (r : Reading) : QueryResult Expr :=
  match arg, r.items with
  | .obj [(field, value)], _ => .ok (.compare cmp (.var field) (.literal value))
  | .obj (f :: g :: rest), _ =>
      .ok (.and ((f :: g :: rest).map fun (field, value) =>
        .compare cmp (.var field) (.literal value)))
  | .arr [_, _], [left, right] => do
      let a ← left
      let b ← right
      .ok (.compare cmp a b)
  | _, _ => badArgument op arg

def arithmetic (arith : ArithOp) (op : String) (arg : Json) (r : Reading) : QueryResult Expr := do
  match ← operands op arg r with
  | [] => badArgument op arg
  | terms => .ok (.arith arith terms)

/-! ## Operators -/

def applyOperator (op : String) (arg : Json) (r : Reading) : QueryResult Expr :=
  match op with
  | "literal" => .ok (.literal arg)
  | "tuple" =>
      match arg with
      | .arr _ => .tuple <$> sequence r.items
      | _ => badArgument op arg
  | "eq" | "term" => comparison .eq op arg r
  | "ne" | "neq" => comparison .ne op arg r
  | "gt" => comparison .gt op arg r
  | "gte" => comparison .gte op arg r
  | "lt" => comparison .lt op arg r
  | "lte" => comparison .lte op arg r
  | "and" => .and <$> operands op arg r
  | "or" => .or <$> operands op arg r
  | "not" => .not <$> r.whole
  | "exists" => .present <$> fieldOperand op arg r
  | "missing" => .missing <$> fieldOperand op arg r
  | "prefix" => do
      match ← pairOperand op arg r with
      | (e, .str start) => .ok (.startsWith e start)
      | (_, other) => badArgument op other
  | "in" | "terms" => do
      match ← pairOperand op arg r with
      | (e, .arr values) => .ok (.oneOf e values)
      | (e, single) => .ok (.oneOf e [single])
  | "add" | "sum" => arithmetic .add op arg r
  | "sub" | "subtract" => arithmetic .sub op arg r
  | "mul" | "mult" => arithmetic .mul op arg r
  | "div" => arithmetic .div op arg r
  | "coalesce" => .coalesce <$> operands op arg r
  | _ => malformed (.unknownOperator op)

mutual

/-- Reads a value as an expression and its elements as expressions. -/
def reading : Json → Reading
  | .str name => { whole := .ok (ofName name), items := [] }
  | .arr vs =>
      let items := readingAll vs
      { whole := .tuple <$> sequence items, items }
  | .obj [(op, arg)] => { whole := applyOperator op arg (reading arg), items := [] }
  | .obj fields => { whole := malformed (.notOneOperator (.obj fields)), items := [] }
  | v => { whole := .ok (.literal v), items := [] }

def readingAll : List Json → List (QueryResult Expr)
  | [] => []
  | v :: rest => (reading v).whole :: readingAll rest

end

def ofJson (v : Json) : QueryResult Expr := (reading v).whole

end Tabula.Expr
