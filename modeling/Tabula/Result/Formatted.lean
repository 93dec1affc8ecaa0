import Tabula.Json.Update
import Tabula.Path
import Tabula.Query.Basic

/-!
# Formatted results

A result is a list of objects, a table with a header, a cube with an array for each select, or a
single value. In a table, a select that is named as a dotted child of another is folded into the
cell of that other (`foldChildren`).
-/

set_option autoImplicit false

namespace Tabula

/-- The number of values that a list can hold: its length in bytes is below `2 ^ 63`, and a value
takes 72 of them. -/
def capacity : Nat := (Nat.pow 2 63 - 1) / 72

structure Formatted where
  format : String
  header : Option (List String)
  edges : Option (List Json)
  data : Json
  deriving Inhabited

namespace Formatted

def list (rows : List Json) : Formatted :=
  { format := "list", header := none, edges := none, data := .arr rows }

def table (header : List String) (rows : List (List Json)) : Formatted :=
  { format := "table", header := some header, edges := none, data := .arr (rows.map .arr) }

/-- A cube. Of two arrays of one name the later stays. -/
def cube (edges : List Json) (data : List (String × Json)) : Formatted :=
  { format := "cube", header := none, edges := some edges, data := .obj (Fields.ofList data) }

def value (v : Json) : Formatted :=
  { format := "value", header := none, edges := none, data := v }

/-- The members of a result as JSON that follow its description. -/
def body (f : Formatted) : Fields :=
  (f.header.map fun names => ("header", Json.texts names)).toList
    ++ (f.edges.map fun edges => ("edges", Json.arr edges)).toList
    ++ [("data", f.data)]

end Formatted

/-! ## Folding children -/

/-- The place of the first name that a name is a dotted child of. -/
def parent? (names : List String) (name : String) : Option Nat :=
  names.findIdx? fun p => (Path.below? p name).isSome

def isTop (names : List String) (name : String) : Bool := (parent? names name).isNone

/-- The column of the name at a place, when it is no child. -/
def column? (names : List String) (i : Nat) : Option Nat :=
  match names[i]? with
  | some name => if isTop names name then some ((names.take i).countP (isTop names)) else none
  | none => none

/-- A cell with a child's value in it. A value that is no object moves under the name `.`. -/
def withChild (child : String) (value : Json) : Json → Json
  | .obj fields => .obj (Fields.insert child value fields)
  | .null => .obj [(child, value)]
  | scalar => .obj (Fields.insert child value [(".", scalar)])

/-- Puts the value of a child into the cell of its parent, unless it is null. -/
def addChild (names : List String) (cells : List Json) (entry : String × Json) : List Json :=
  match parent? names entry.1 with
  | none => cells
  | some p =>
      match column? names p, entry.2.isNull with
      | some column, false =>
          let child := ((names[p]?).bind fun parent => Path.below? parent entry.1).getD ""
          cells.modify column (withChild child entry.2)
      | _, _ => cells

/-- The columns of selects with these names and values. -/
def foldChildren (names : List String) (values : List Json) : List String × List Json :=
  let entries := names.zip values
  let tops := entries.filter fun e => isTop names e.1
  (tops.map (·.1), entries.foldl (addChild names) (tops.map (·.2)))

end Tabula
