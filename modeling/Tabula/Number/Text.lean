import Tabula.Number.Basic
import Tabula.Number.Shortest

/-!
# Numbers as text

An integer is written plainly. A double is written with its shortest digits in one of three
layouts, which differ in where positional notation ends and in what an exponent looks like:

* `Layout.json` wherever a number is part of a JSON text;
* `Layout.message` for a double that a message speaks of;
* `Layout.percentKey` for the names under which percentiles are reported.
-/

set_option autoImplicit false

namespace Tabula

/-- The decisions of a number format. -/
structure Layout where
  /-- Which exponents of the leading digit are written positionally. -/
  positional : Int → Bool
  /-- What follows the digits of an integral double. -/
  integralTail : String
  /-- What stands before an exponent that is not negative. -/
  exponentSign : String
  /-- Where a double exactly between two shortest decimals goes. -/
  tie : Tie

namespace Layout

/-- JSON writes `0.00001` to `1000000000000000.0` positionally, and `1e-6` and `1e+16` beyond. -/
def json : Layout where
  positional e := -5 ≤ e ∧ e ≤ 15
  integralTail := ".0"
  exponentSign := "+"
  tie := .toEven

/-- Percentile names are written as in JSON, but for the sign of an exponent. -/
def percentKey : Layout := { json with exponentSign := "" }

/-- Messages never use an exponent and leave an integral double without a point. -/
def message : Layout where
  positional _ := true
  integralTail := ""
  exponentSign := ""
  tie := .up

def zeros (n : Nat) : String := String.ofList (List.replicate n '0')

/-- Digits with the point after the first `whole` of them, or before them all. -/
def positionalText (l : Layout) (d : Decimal) : String :=
  let digits := Nat.toDigits 10 d.digits
  if 0 ≤ d.exponent then String.ofList digits ++ zeros d.exponent.toNat ++ l.integralTail
  else
    let places := (-d.exponent).toNat
    if places < digits.length then
      String.ofList (digits.take (digits.length - places)) ++ "."
        ++ String.ofList (digits.drop (digits.length - places))
    else "0." ++ zeros (places - digits.length) ++ String.ofList digits

/-- Digits with the point after the first of them, and an exponent. -/
def scientificText (l : Layout) (d : Decimal) : String :=
  let mantissa := match Nat.toDigits 10 d.digits with
    | c :: [] => String.singleton c
    | c :: rest => String.singleton c ++ "." ++ String.ofList rest
    | [] => "0"
  let e := d.leading
  mantissa ++ "e" ++ (if e < 0 then "-" else l.exponentSign) ++ toString e.natAbs

/-- The text of a finite double. The sign of zero is kept. -/
def write (l : Layout) (x : Float) : String :=
  let d := Decimal.shortest x l.tie
  let sign := if (Binary.ofFloat x).negative then "-" else ""
  sign ++ (if l.positional d.leading then l.positionalText d else l.scientificText d)

end Layout

namespace Number

def text : Number → String
  | int i => toString i
  | float x => Layout.json.write x

end Number

/-- The text of a double inside a message, where it need not be finite. -/
def messageText (x : Float) : String :=
  if x.isNaN then "NaN"
  else if x.isInf then (if 0 < x then "inf" else "-inf")
  else Layout.message.write x

/-! ## Reading a double back -/

/-- The double nearest to `± digits · 10 ^ exponent`, infinite when too large. Exponents beyond
any double are cut before they are raised to. -/
def Decimal.toFloat (negative : Bool) (d : Decimal) : Float :=
  let magnitude :=
    if d.digits = 0 then 0.0
    else if d.leading > 400 then 1.0 / 0.0
    else if d.leading < -400 then 0.0
    else Float.ofScientific d.digits (d.exponent < 0) d.exponent.natAbs
  if negative then -magnitude else magnitude

end Tabula
