import Tabula.Json.Value
import Tabula.Path

/-!
# Writing into objects

Results are objects to which values are added one by one, at names or at dotted paths.
-/

set_option autoImplicit false

namespace Tabula.Fields

/-- Sets a member, unless the value is null. -/
def put (key : String) (value : Json) (fields : Fields) : Fields :=
  if value.isNull then fields else Fields.insert key value fields

/-- The members of a value, none when it is no object. -/
def ofValue : Json → Fields
  | .obj fields => fields
  | _ => []

/-- Sets the value at a path of names. Objects on the way are created, and what stands in the way
is replaced by one. -/
def setAt : List String → Json → Fields → Fields
  | [], _, fields => fields
  | [key], value, fields => Fields.insert key value fields
  | key :: rest, value, fields =>
      Fields.insert key (.obj (setAt rest value (ofValue (Fields.getD key fields)))) fields

def setPath (path : String) (value : Json) (fields : Fields) : Fields :=
  setAt (Path.names path) value fields

end Tabula.Fields
