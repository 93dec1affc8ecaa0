import Tabula.Expr.Basic
import Tabula.Json.Printer

/-!
# Expressions as JSON

Fields are written by name, numbers, booleans and null as themselves, other literals under
`literal`, and everything else as an object whose one member names the operator. `Expr.text` is
the same on one line; it names expressions that have no name of their own.
-/

set_option autoImplicit false

namespace Tabula.Expr

/-- A literal, wrapped when its bare form would mean something else. -/
def literalJson : Json → Json
  | .null => .null
  | .bool b => .bool b
  | .num n => .num n
  | v => .obj [("literal", v)]

mutual

def toJson : Expr → Json
  | literal v => literalJson v
  | var name => .str name
  | leaves path => .str (if path = Path.root then "*" else path ++ ".*")
  | tuple ts => .obj [("tuple", .arr (toJsonAll ts))]
  | compare op a b => .obj [(op.name, .arr [toJson a, toJson b])]
  | and ts => .obj [("and", .arr (toJsonAll ts))]
  | or ts => .obj [("or", .arr (toJsonAll ts))]
  | not t => .obj [("not", toJson t)]
  | present t => .obj [("exists", toJson t)]
  | missing t => .obj [("missing", toJson t)]
  | startsWith t start => .obj [("prefix", .arr [toJson t, .str start])]
  | oneOf t vs => .obj [("in", .arr [toJson t, .arr vs])]
  | arith op ts => .obj [(op.name, .arr (toJsonAll ts))]
  | coalesce ts => .obj [("coalesce", .arr (toJsonAll ts))]

def toJsonAll : List Expr → List Json
  | [] => []
  | t :: rest => toJson t :: toJsonAll rest

end

def text (e : Expr) : String := e.toJson.compact

end Tabula.Expr
