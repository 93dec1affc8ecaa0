import Tabula.Expr.Basic
import Tabula.Schema.Catalog
import Tabula.Search.Script

/-!
# Expressions as scripts

`Expr.script` compiles an expression to a script that computes its value for one document. A
field stored in several columns is the first of them that holds a value.
-/

set_option autoImplicit false

namespace Tabula.Expr

open Script (code)

/-- The value of a field. A field without columns of its own stands for the leaves below it. -/
def fieldScript (catalog : Catalog) (name : String) : QueryResult Script :=
  let columns := match catalog.scalars name with
    | [] => catalog.leaves name
    | columns => columns
  if columns.isEmpty then .error (.unknownField name)
  else .ok (Script.coalesce (columns.map fun c => Script.columnValue c.stored))

/-- A comparison. Order is asked of present values only. -/
def compareScript (op : CompareOp) (l r : Script) : Script :=
  let test := l ++ code (" " ++ op.symbol ++ " ") ++ r
  match op with
  | .eq | .ne => code "(" ++ test ++ code ")"
  | _ =>
      code "(" ++ l ++ code " != null && " ++ r ++ code " != null && " ++ test ++ code ")"

/-- Conditions joined by an operator, or its neutral value when there are none. -/
def joinedConditions (separator neutral : String) (parts : List Script) : Script :=
  if parts.isEmpty then code neutral
  else code "(" ++ Script.joined separator parts ++ code ")"

mutual

def script (catalog : Catalog) : Expr → QueryResult Script
  | literal v => .ok (Script.ofValue v)
  | var name => fieldScript catalog name
  | leaves path => malformed (.scriptOfLeaves path)
  | tuple ts => do
      let parts ← scripts catalog ts
      .ok (code "new Object[]\x7b" ++ Script.joined ", " parts ++ code "\x7d")
  | compare op a b => do
      let l ← script catalog a
      let r ← script catalog b
      .ok (compareScript op l r)
  | and ts => do .ok (joinedConditions " && " "true" (← scripts catalog ts))
  | or ts => do .ok (joinedConditions " || " "false" (← scripts catalog ts))
  | not t => do .ok (code "!(" ++ (← script catalog t) ++ code ")")
  | present t => do .ok (code "(" ++ (← script catalog t) ++ code " != null)")
  | missing t => do .ok (code "(" ++ (← script catalog t) ++ code " == null)")
  | startsWith t start => do
      let s ← script catalog t
      .ok (code "(" ++ s ++ code " != null && " ++ s
        ++ [.code ".toString().startsWith(", .text start, .code "))"])
  | oneOf t values => do
      let s ← script catalog t
      .ok (Script.ofList values ++ code ".contains(" ++ s ++ code ")")
  | arith op ts => do
      let parts ← scripts catalog ts
      .ok (code "(" ++ Script.joined (" " ++ op.symbol ++ " ") parts ++ code ")")
  | coalesce ts => do .ok (Script.coalesce (← scripts catalog ts))

def scripts (catalog : Catalog) : List Expr → QueryResult (List Script)
  | [] => .ok []
  | t :: rest => do
      let s ← script catalog t
      let more ← scripts catalog rest
      .ok (s :: more)

end

end Tabula.Expr
