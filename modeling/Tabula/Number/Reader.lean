import Tabula.Number.Text

/-!
# Doubles as written text

The texts that stand for a double: decimal digits with an optional sign, point and exponent, at
least one digit in all, and the words for infinity and for no number, in any case. The double
nearest to the decimal is taken.
-/

set_option autoImplicit false

namespace Tabula.Double

def digitsValue (digits : List Char) : Nat :=
  digits.foldl (fun n c => n * 10 + (c.toNat - '0'.toNat)) 0

def splitSign : List Char → Bool × List Char
  | '-' :: rest => (true, rest)
  | '+' :: rest => (false, rest)
  | cs => (false, cs)

/-- The exponent after the digits of a decimal, up to the end of the text. -/
def exponentOf? : List Char → Option Int
  | [] => some 0
  | c :: rest =>
      let (negative, digits) := splitSign rest
      if (c = 'e' ∨ c = 'E') ∧ digits ≠ [] ∧ digits.all Char.isDigit then
        some (if negative then -(digitsValue digits : Int) else digitsValue digits)
      else none

def unsigned? (cs : List Char) : Option Decimal :=
  let (whole, cs) := cs.span Char.isDigit
  let (fraction, cs) := match cs with
    | '.' :: rest => rest.span Char.isDigit
    | _ => ([], cs)
  if whole = [] ∧ fraction = [] then none
  else (exponentOf? cs).map fun e =>
    { digits := digitsValue (whole ++ fraction), exponent := e - fraction.length }

def ofText? (text : String) : Option Float :=
  let (negative, cs) := splitSign text.toList
  let signed (x : Float) := if negative then -x else x
  match String.ofList (cs.map Char.toLower) with
  | "inf" | "infinity" => some (signed (1.0 / 0.0))
  | "nan" => some (0.0 / 0.0)
  | _ => (unsigned? cs).map fun d => d.toFloat negative

end Tabula.Double
