import Tabula.Json.Printer

/-!
# Values as partitions

Values that partitions stand for are told apart by `valueKey`, under which equal numbers agree
whether they are integers or doubles, and ordered by `compareValues`: booleans, numbers, texts,
then arrays and objects, then null.
-/

set_option autoImplicit false

namespace Tabula

/-- What a value is told apart by. -/
def valueKey : Json → String
  | .num n => (Json.ofComputed n.toFloat).compact
  | v => v.compact

def typeRank : Json → Nat
  | .bool _ => 0
  | .num _ => 1
  | .str _ => 2
  | .arr _ | .obj _ => 3
  | .null => 4

mutual

/-- The order of values. Arrays go element by element, other values of one rank by their text. -/
def compareValues : Json → Json → Ordering
  | .bool a, .bool b => compare a b
  | .num a, .num b => compare a.orderKey b.orderKey
  | .str a, .str b => compare a b
  | .arr as, .arr bs => compareItems as bs
  | a, b => (compare (typeRank a) (typeRank b)).then (compare a.compact b.compact)

/-- The order of lists of values: that of the first elements that differ, else by length. -/
def compareItems : List Json → List Json → Ordering
  | [], [] => .eq
  | [], _ :: _ => .lt
  | _ :: _, [] => .gt
  | a :: as, b :: bs => (compareValues a b).then (compareItems as bs)

end

end Tabula
