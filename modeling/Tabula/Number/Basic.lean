import Tabula.Number.Double

/-!
# Numbers

A number is an integer or a double, and the two are kept apart: `1` and `1.0` print differently
and are different values. Order is the order of the nearest doubles, through `Number.orderKey`,
an integer, so that it is a total order of places on the number line.
-/

set_option autoImplicit false

namespace Tabula

/-- A number: an integer between `-2^63` and `2^64 - 1`, or a finite double. -/
inductive Number where
  | int (value : Int)
  | float (value : Float)
  deriving DecidableEq, Inhabited

namespace Number

/-- The double nearest to a number. -/
def toFloat : Number → Float
  | int i => Float.ofInt i
  | float x => x

/-- The place of a number on the number line. -/
def orderKey (n : Number) : Int := Double.orderKey n.toFloat

/-- Two numbers are the same value when they are one integer, or doubles at one place of the
number line. An integer is never the same value as a double. -/
def same : Number → Number → Bool
  | int a, int b => a == b
  | float x, float y => Double.orderKey x == Double.orderKey y
  | _, _ => false

/-- The number that a computation yields: an integer when it is integral and below `9 · 10^15`
in magnitude, else a double; no number when it is not finite. -/
def ofComputed? (x : Float) : Option Number :=
  match Double.integer? x with
  | some i => some (if i.natAbs < 9000000000000000 then .int i else .float x)
  | none => if x.isFinite then some (.float x) else none

end Number

end Tabula
