import Tabula.Number.Double

/-!
# The shortest decimal of a double

A double stands for every real number that rounds to it. `Decimal.shortest` finds the decimal
with the fewest digits among these, and of several the one nearest to the double. All of it is
integer arithmetic on the exact value `mantissa · 2 ^ exponent`:

* the reals that round to the double reach half way to its neighbours, the ends included when
  its mantissa is even (`Reach`);
* if a grid of decimals `d · 10 ^ e` meets that reach at all, then one of the two grid points
  around the double lies in it, so only these two are tried, from the coarsest grid on.
-/

set_option autoImplicit false

namespace Tabula

/-- The number `digits · 10 ^ exponent`. -/
structure Decimal where
  digits : Nat
  exponent : Int
  deriving DecidableEq, Inhabited

/-- Which way a double goes that lies exactly between two shortest decimals. -/
inductive Tie where
  | toEven
  | up

/-- The reals that round to a positive double, over the common denominator `unit`: those
between `low` and `high`, where the double itself is `value`. -/
structure Reach where
  low : Nat
  value : Nat
  high : Nat
  unit : Nat
  closed : Bool

namespace Reach

/-- The reach of `mantissa · 2 ^ exponent`, in quarters of the last place. Below a power of two
the neighbours are half as far apart, except at the least exponent. -/
def ofBinary (b : Binary) : Reach :=
  let below := if b.mantissa = Nat.pow 2 52 ∧ -1074 < b.exponent then 1 else 2
  let scale := if 0 ≤ b.exponent then Nat.pow 2 b.exponent.toNat else 1
  { low := (4 * b.mantissa - below) * scale
    value := 4 * b.mantissa * scale
    high := (4 * b.mantissa + 2) * scale
    unit := 4 * (if 0 ≤ b.exponent then 1 else Nat.pow 2 (-b.exponent).toNat)
    closed := b.mantissa % 2 = 0 }

/-- The same reach with `10 ^ e` as its unit of length. -/
def rescale (r : Reach) (e : Int) : Reach :=
  if 0 ≤ e then { r with unit := r.unit * Nat.pow 10 e.toNat }
  else
    let f := Nat.pow 10 (-e).toNat
    { r with low := r.low * f, value := r.value * f, high := r.high * f }

def holds (r : Reach) (d : Nat) : Bool :=
  if r.closed then r.low ≤ d * r.unit ∧ d * r.unit ≤ r.high
  else r.low < d * r.unit ∧ d * r.unit < r.high

/-- The integer within the reach that is nearest to the value, if there is one. -/
def nearest? (r : Reach) (tie : Tie) : Option Nat :=
  let lower := r.value / r.unit
  let upper := lower + 1
  match r.holds lower, r.holds upper with
  | true, true =>
      let twice := 2 * (r.value % r.unit)
      if twice < r.unit then some lower
      else if r.unit < twice then some upper
      else match tie with
        | .up => some upper
        | .toEven => some (if lower % 2 = 0 then lower else upper)
  | true, false => some lower
  | false, true => some upper
  | false, false => none

/-- The exponent `e` of the value's leading digit: `10 ^ e ≤ value < 10 ^ (e + 1)`. -/
def leadingExponent (r : Reach) : Int :=
  ((Nat.toDigits 10 (r.value * Nat.pow 10 400 / r.unit)).length : Int) - 401

/-- The first hit on the grids of `n`, `n + 1`, … digits. -/
def search (r : Reach) (tie : Tie) (e : Int) : Nat → Int → Option Decimal
  | 0, _ => none
  | more + 1, n =>
      match (r.rescale (e - n + 1)).nearest? tie with
      | some d => some { digits := d, exponent := e - n + 1 }
      | none => search r tie e more (n + 1)

end Reach

namespace Decimal

/-- Drops the zeros at the end of the digits, up to a number of them. -/
def trim : Nat → Decimal → Decimal
  | 0, d => d
  | fuel + 1, d =>
      if d.digits ≠ 0 ∧ d.digits % 10 = 0 then
        trim fuel { digits := d.digits / 10, exponent := d.exponent + 1 }
      else d

/-- The shortest decimal that reads back as the magnitude of a finite double. Seventeen digits
always suffice. -/
def shortest (x : Float) (tie : Tie) : Decimal :=
  let b := Binary.ofFloat x
  if b.mantissa = 0 then { digits := 0, exponent := 0 }
  else
    let r := Reach.ofBinary b
    trim 20 ((r.search tie r.leadingExponent 17 1).getD { digits := 0, exponent := 0 })

def leading (d : Decimal) : Int := d.exponent + ((Nat.toDigits 10 d.digits).length : Int) - 1

end Decimal

end Tabula
