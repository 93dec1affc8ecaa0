/-!
# Doubles, exactly

A finite double is `± mantissa · 2 ^ exponent` for integers `mantissa` and `exponent`. This file
reads the two off the bits (`Binary.ofFloat`), and with them decides in integer arithmetic which
integer a double equals, if any, and where it stands on the number line.
-/

set_option autoImplicit false

namespace Tabula

/-- The number `± mantissa · 2 ^ exponent`. -/
structure Binary where
  negative : Bool
  mantissa : Nat
  exponent : Int
  deriving DecidableEq, Inhabited

namespace Binary

/-- A finite double as an exact number: eleven bits of exponent, of which the lowest value marks
a mantissa without its leading one, and 52 bits of mantissa. -/
def ofFloat (x : Float) : Binary :=
  let bits := x.toBits.toNat
  let raw : Nat := bits / Nat.pow 2 52 % Nat.pow 2 11
  let tail : Nat := bits % Nat.pow 2 52
  { negative := Nat.pow 2 63 ≤ bits
    mantissa := if raw = 0 then tail else Nat.pow 2 52 + tail
    exponent := if raw = 0 then -1074 else (raw : Int) - 1075 }

def signed (b : Binary) (magnitude : Nat) : Int :=
  if b.negative then -(magnitude : Int) else magnitude

def integer? (b : Binary) : Option Int :=
  if 0 ≤ b.exponent then some (b.signed (b.mantissa * Nat.pow 2 b.exponent.toNat))
  else
    let unit := Nat.pow 2 (-b.exponent).toNat
    if b.mantissa % unit = 0 then some (b.signed (b.mantissa / unit)) else none

def ceil (b : Binary) : Int :=
  if 0 ≤ b.exponent then b.signed (b.mantissa * Nat.pow 2 b.exponent.toNat)
  else
    let unit := Nat.pow 2 (-b.exponent).toNat
    if b.negative then -((b.mantissa / unit : Nat) : Int)
    else ((b.mantissa + unit - 1) / unit : Nat)

end Binary

namespace Double

def integer? (x : Float) : Option Int :=
  if x.isFinite then (Binary.ofFloat x).integer? else none

/-- The place of a double on the number line: its bits read as sign and magnitude. Both zeros
stand at `0`, and the greater of two finite doubles stands at the greater place. -/
def orderKey (x : Float) : Int :=
  let bits := x.toBits.toNat
  if bits < Nat.pow 2 63 then (bits : Int) else -((bits - Nat.pow 2 63 : Nat) : Int)

end Double

end Tabula
