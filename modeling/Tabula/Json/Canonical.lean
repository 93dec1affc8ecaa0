import Tabula.Json.Value
import Tabula.Text.Order

/-!
# Canonical JSON

The canonical form of a value has the members of every object in the order of their names. Two
values that differ only in the order of members have one canonical form.
-/

set_option autoImplicit false

namespace Tabula

def Fields.sorted (fields : Fields) : Fields := fields.mergeSort fun a b => Text.le a.1 b.1

namespace Json

mutual

def canonical : Json → Json
  | arr items => arr (canonicalItems items)
  | obj fields => obj (Fields.sorted (canonicalFields fields))
  | scalar => scalar

def canonicalItems : List Json → List Json
  | [] => []
  | v :: rest => canonical v :: canonicalItems rest

def canonicalFields : List (String × Json) → List (String × Json)
  | [] => []
  | (k, v) :: rest => (k, canonical v) :: canonicalFields rest

end

end Json

end Tabula
