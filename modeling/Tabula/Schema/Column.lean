import Tabula.Path

/-!
# Columns

A field of a document may be stored in several columns, one for each type of value that it has
held. A column knows the chain of nested documents that it lives in.
-/

set_option autoImplicit false

namespace Tabula

/-- The type of a column as queries see it. -/
inductive ColumnType where
  | string
  | number
  | boolean
  | object
  | nested
  /-- Only whether the field is there, as a count. -/
  | presence
  deriving DecidableEq, Inhabited

namespace ColumnType

def name : ColumnType → String
  | string => "string"
  | number => "number"
  | boolean => "boolean"
  | object => "object"
  | nested => "nested"
  | presence => "exists"

def ofName? : String → Option ColumnType
  | "string" => some string
  | "number" => some number
  | "boolean" => some boolean
  | "object" => some object
  | "nested" => some nested
  | "exists" => some presence
  | _ => none

/-- Objects and nested documents are containers; all other columns are leaves and hold values. -/
def isLeaf : ColumnType → Bool
  | object | nested => false
  | _ => true

/-- The type that the backend stores an inferred column with. -/
def mapping : ColumnType → String
  | string => "keyword"
  | number => "double"
  | boolean => "boolean"
  | object => "object"
  | nested => "nested"
  | presence => "long"

def containers : List ColumnType := [object, nested]

end ColumnType

/-- A column that stores values of one field. -/
structure Column where
  /-- Name of the field, from the document root. -/
  name : String
  /-- Name of the column in requests. -/
  stored : String
  /-- Type of the column in the backend. -/
  mapping : String
  type : ColumnType
  /-- The nested documents that hold the column, innermost first, the root last. -/
  nestedPath : List String
  deriving DecidableEq, Inhabited

namespace Column

/-- The innermost nested document that holds the column. -/
def depth (c : Column) : String := c.nestedPath.head?.getD Path.root

/-- Whether the column lives in nested documents strictly below `depth`. -/
def isBelow (c : Column) (depth : String) : Bool :=
  c.depth != depth && Path.contains depth c.depth

end Column

end Tabula
