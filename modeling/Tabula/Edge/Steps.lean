import Tabula.Json.Value
import Tabula.Error

/-!
# Cutting a range

A range domain cuts the numbers from `min` up to `max` into partitions of one width, the last of
which may be narrower. The arithmetic is stated for any numbers (`Scale`), and so is how they are
written in requests and read from responses. It is run on doubles, where it rounds; which integer a
double rounds to is decided exactly.
-/

set_option autoImplicit false

namespace Tabula

/-! ## Numbers to cut -/

/-- The arithmetic of a range, and its numbers as JSON. -/
class Scale (α : Type) where
  ofNat : Nat → α
  add : α → α → α
  sub : α → α → α
  mul : α → α → α
  div : α → α → α
  lt : α → α → Bool
  /-- The least integer not below a number, if it is finite. -/
  ceil : α → Option Int
  /-- The integer nearest to a number, halves away from zero, if it is finite. -/
  round : α → Option Int
  /-- The number that a value holds. -/
  ofJson? : Json → Option α
  /-- A computed number as a value. -/
  toJson : α → Json

namespace Binary

/-- The integer nearest to a number, halves away from zero. -/
def round (b : Binary) : Int :=
  if 0 ≤ b.exponent then b.signed (b.mantissa * Nat.pow 2 b.exponent.toNat)
  else
    let unit := Nat.pow 2 (-b.exponent).toNat
    b.signed ((2 * b.mantissa + unit) / (2 * unit))

end Binary

instance : Scale Float where
  ofNat := Float.ofNat
  add := (· + ·)
  sub := (· - ·)
  mul := (· * ·)
  div := (· / ·)
  lt a b := a < b
  ceil x := if x.isFinite then some (Binary.ofFloat x).ceil else none
  round x := if x.isFinite then some (Binary.ofFloat x).round else none
  ofJson? := Json.asFloat?
  toJson := Json.ofComputed

theorem Scale.ofJson?_float : (Scale.ofJson? : Json → Option Float) = Json.asFloat? := rfl

/-! ## Partitions -/

/-- The range from `min` up to `max` in partitions of the width `interval`. -/
structure Steps (α : Type) where
  min : α
  max : α
  interval : α
  deriving Inhabited

inductive StepsFault where
  | infinite
  | empty
  | tooMany
  deriving DecidableEq

namespace Steps

variable {α : Type} [Scale α]

def width (s : Steps α) : α := Scale.div (Scale.sub s.max s.min) s.interval

def count (s : Steps α) : Nat := ((Scale.ceil s.width).getD 0).toNat

def lower (s : Steps α) (i : Nat) : α := Scale.add s.min (Scale.mul (Scale.ofNat i) s.interval)

/-- The upper bound of a partition, which no value in it reaches. A partition that is not cut off
before `max` ends at `max` itself, as it is written. -/
def upper (s : Steps α) (i : Nat) : α :=
  let full := Scale.add (s.lower i) s.interval
  if Scale.lt full s.max then full else s.max

/-- The partition that begins at a number, or nearest to it. -/
def indexOf (s : Steps α) (start : α) : Option Nat :=
  match Scale.round (Scale.div (Scale.sub start s.min) s.interval) with
  | some i => if 0 ≤ i ∧ i.toNat < s.count then some i.toNat else none
  | none => none

def value? (s : Steps α) (i : Nat) : Option Json :=
  if i < s.count then some (Scale.toJson (s.lower i)) else none

/-- What keeps a range from being cut into at most `limit` partitions. The two numbers of partitions
are compared as integers. As doubles, a limit above `2 ^ 53` would be rounded first, and a range of
a few partitions more accepted where that is upwards. -/
def fault? (s : Steps α) (limit : Nat) : Option StepsFault :=
  if [s.min, s.max, s.interval].any fun x => (Scale.ceil x).isNone then some .infinite
  else if !Scale.lt (Scale.ofNat 0) s.interval || Scale.lt s.max s.min then some .empty
  else match Scale.ceil s.width with
    | some n => if (limit : Int) < n then some .tooMany else none
    | none => some .tooMany

end Steps

/-- The range between two doubles, when it can be cut into at most `limit` partitions. -/
def Steps.ofFloats (min max interval : Float) (limit : Nat) : QueryResult (Steps Float) :=
  let s : Steps Float := { min, max, interval }
  match s.fault? limit with
  | none => .ok s
  | some .infinite => malformed (.infiniteRange min max interval)
  | some .empty => malformed (.emptyRange min max interval)
  | some .tooMany =>
      let partitions := match Scale.ceil s.width with
        | some n => Float.ofInt n
        | none => s.width
      malformed (.fineRange min max interval partitions limit)

def Steps.describe (s : Steps Float) : Fields :=
  [("type", .str "range"), ("min", .ofComputed s.min), ("max", .ofComputed s.max),
    ("interval", .ofComputed s.interval)]

end Tabula
