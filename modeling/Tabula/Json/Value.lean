import Tabula.Number.Basic

/-!
# JSON values

Queries, requests, responses and results are all JSON. A value keeps the members of an object
in the order in which they were first written, and keeps integers apart from fractional numbers:
`1` and `1.0` print differently and are different values. Two objects are nevertheless the
*same* value (`Json.same`) when they hold the same members in any order.
-/

set_option autoImplicit false

namespace Tabula

/-! ## Values -/

/-- A JSON value. The members of an object are kept in order, under distinct names. -/
inductive Json where
  | null
  | bool (value : Bool)
  | num (value : Number)
  | str (value : String)
  | arr (items : List Json)
  | obj (fields : List (String × Json))
  deriving Inhabited

/-- The members of an object, in order. -/
abbrev Fields := List (String × Json)

namespace Fields

def get? (key : String) : Fields → Option Json
  | [] => none
  | (k, v) :: rest => if k = key then some v else get? key rest

/-- Sets the member named `key`: in place when there is one, else at the end. -/
def insert (key : String) (value : Json) : Fields → Fields
  | [] => [(key, value)]
  | (k, v) :: rest => if k = key then (k, value) :: rest else (k, v) :: insert key value rest

/-- The members of a list in which a later one replaces an earlier one of the same name, at the
place of the first. -/
def ofList (entries : List (String × Json)) : Fields :=
  entries.foldl (fun fields entry => insert entry.1 entry.2 fields) []

/-- The member named `key`, with `null` standing for an absent one. -/
def getD (key : String) (fields : Fields) : Json := (get? key fields).getD .null

def has (key : String) (fields : Fields) : Bool := (get? key fields).isSome

end Fields

namespace Json

def int (i : Int) : Json := .num (.int i)

def nat (n : Nat) : Json := .num (.int n)

def float (x : Float) : Json := .num (.float x)

def texts (items : List String) : Json := .arr (items.map .str)

def optText : Option String → Json
  | some s => .str s
  | none => .null

def isNull : Json → Bool
  | null => true
  | _ => false

def isObj : Json → Bool
  | obj _ => true
  | _ => false

def asBool? : Json → Option Bool
  | bool b => some b
  | _ => none

def asStr? : Json → Option String
  | str s => some s
  | _ => none

def asArr? : Json → Option (List Json)
  | arr items => some items
  | _ => none

def asObj? : Json → Option Fields
  | obj fields => some fields
  | _ => none

def asFloat? : Json → Option Float
  | num n => some n.toFloat
  | _ => none

/-- A non-negative integer. A double is none, even when it is integral. -/
def asNat? : Json → Option Nat
  | num (.int i) => if 0 ≤ i then some i.toNat else none
  | _ => none

/-- An integer below `2^63`. A double is none, even when it is integral. -/
def asInt? : Json → Option Int
  | num (.int i) => if i < Nat.pow 2 63 then some i else none
  | _ => none

/-- The member of an object named `key`; nothing when the value is no object. -/
def get? (key : String) : Json → Option Json
  | obj fields => Fields.get? key fields
  | _ => none

/-- The member of an object named `key`, with `null` standing for an absent one. -/
def getD (key : String) (v : Json) : Json := (v.get? key).getD .null

def at? (index : Nat) : Json → Option Json
  | arr items => items[index]?
  | _ => none

/-! ## Equality -/

mutual

/-- Whether two values are the same, whatever the order of the members of their objects. -/
def same : Json → Json → Bool
  | null, null => true
  | bool a, bool b => a == b
  | num a, num b => a.same b
  | str a, str b => a == b
  | arr xs, arr ys => sameItems xs ys
  | obj fs, obj gs => fs.length == gs.length && sameFields fs gs
  | _, _ => false

def sameItems : List Json → List Json → Bool
  | [], [] => true
  | x :: xs, y :: ys => same x y && sameItems xs ys
  | _, _ => false

/-- Whether every member of the first list has a counterpart of the same value in the second. -/
def sameFields : List (String × Json) → List (String × Json) → Bool
  | [], _ => true
  | (k, v) :: rest, gs =>
      (match Fields.get? k gs with
        | some w => same v w
        | none => false) && sameFields rest gs

end

def containedIn (v : Json) (items : List Json) : Bool := items.any (same · v)

end Json

/-- The value of a computed number, `null` when it is not finite. -/
def Json.ofComputed (x : Float) : Json :=
  match Number.ofComputed? x with
  | some n => .num n
  | none => .null

end Tabula
