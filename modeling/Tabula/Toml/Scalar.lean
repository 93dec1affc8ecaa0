import Tabula.Number.Reader
import Tabula.Toml.Document

/-!
# Numbers, truth values and moments in TOML

These are written without quotes. Digits may be grouped by single underscores; a decimal number
has no leading zeros; a fractional one has digits after its point. A moment is a date, a time, or
both, with an offset or without, and lies on the calendar.
-/

set_option autoImplicit false

namespace Tabula.Toml

/-! ## Digits -/

/-- Digits without the underscores between them. Each underscore stands between two digits, and
there is at least one digit. -/
def grouped? (isDigit : Char → Bool) : List Char → Option (List Char)
  | [] => none
  | [c] => if isDigit c then some [c] else none
  | c :: '_' :: rest => if isDigit c then (grouped? isDigit rest).map (c :: ·) else none
  | c :: rest => if isDigit c then (grouped? isDigit rest).map (c :: ·) else none

def digitValue (c : Char) : Nat :=
  if c ≤ '9' then c.toNat - '0'.toNat else (c.toLower.toNat - 'a'.toNat) + 10

def ofDigits (base : Nat) (digits : List Char) : Nat :=
  digits.foldl (fun n c => n * base + digitValue c) 0

def isHexDigit (c : Char) : Bool :=
  c.isDigit || ('a' ≤ c && c ≤ 'f') || ('A' ≤ c && c ≤ 'F')

/-- The number of a base that its prefix names. -/
def based? : List Char → Option Nat
  | '0' :: 'x' :: cs => (grouped? isHexDigit cs).map (ofDigits 16)
  | '0' :: 'o' :: cs => (grouped? (fun c => '0' ≤ c && c ≤ '7') cs).map (ofDigits 8)
  | '0' :: 'b' :: cs => (grouped? (fun c => c == '0' || c == '1') cs).map (ofDigits 2)
  | _ => none

/-- The digits of a decimal number before its point. -/
def whole? (cs : List Char) : Option (List Char) :=
  match grouped? Char.isDigit cs with
  | some ('0' :: _ :: _) => none
  | digits => digits

/-! ## Fractional numbers -/

/-- Splits at the first character that a test holds of; nothing when there is none. -/
def splitAt? (test : Char → Bool) (cs : List Char) : Option (List Char × List Char) :=
  match cs.dropWhile (!test ·) with
  | [] => none
  | _ :: after => some (cs.takeWhile (!test ·), after)

def exponent? (cs : List Char) : Option Int :=
  let (negative, digits) := Double.splitSign cs
  (grouped? Char.isDigit digits).map fun digits =>
    if negative then -(ofDigits 10 digits : Int) else ofDigits 10 digits

/-- A fractional number without sign and exponent. -/
def point? (cs : List Char) : Option Decimal :=
  match splitAt? (· == '.') cs with
  | none => (whole? cs).map fun whole => { digits := ofDigits 10 whole, exponent := 0 }
  | some (before, after) => do
      let whole ← whole? before
      let fraction ← grouped? Char.isDigit after
      some { digits := ofDigits 10 (whole ++ fraction), exponent := -(fraction.length : Int) }

/-- A fractional number without sign: it has a point or an exponent. -/
def fractional? (cs : List Char) : Option Decimal :=
  match splitAt? (fun c => c == 'e' || c == 'E') cs with
  | some (before, after) => do
      let d ← point? before
      some { d with exponent := d.exponent + (← exponent? after) }
  | none => if cs.contains '.' then point? cs else none

/-- The double of a decimal, unless it is too large. -/
def double? (negative : Bool) (d : Decimal) : Option Float :=
  let x := d.toFloat negative
  if x.isFinite then some x else none

def number? (cs : List Char) : Option Value :=
  let (negative, unsigned) := Double.splitSign cs
  match String.ofList unsigned, whole? unsigned with
  | "inf", _ => some (.float (some (if negative then -(1.0 / 0.0) else 1.0 / 0.0)))
  | "nan", _ => some (.float (some (0.0 / 0.0)))
  | _, some digits =>
      let n := ofDigits 10 digits
      some (.integer (if negative then -(n : Int) else n))
  | _, none => (fractional? unsigned).map fun d => .float (double? negative d)

/-! ## Moments -/

/-- The number that two digits write, when it is at most `most`. -/
def twoDigits? (most : Nat) (a b : Char) : Option Nat :=
  let n := ofDigits 10 [a, b]
  if a.isDigit && b.isDigit && n ≤ most then some n else none

def daysOf (year month : Nat) : Nat :=
  let leap := year % 4 = 0 ∧ (year % 100 ≠ 0 ∨ year % 400 = 0)
  if month = 2 then if leap then 29 else 28
  else if month = 4 ∨ month = 6 ∨ month = 9 ∨ month = 11 then 30
  else 31

def isDate : List Char → Bool
  | [y1, y2, y3, y4, '-', m1, m2, '-', d1, d2] =>
      let year := [y1, y2, y3, y4]
      match twoDigits? 12 m1 m2, twoDigits? 31 d1 d2 with
      | some month, some day =>
          year.all Char.isDigit && 1 ≤ month && 1 ≤ day && day ≤ daysOf (ofDigits 10 year) month
      | _, _ => false
  | _ => false

/-- Whether characters are an offset from universal time, if any. -/
def isOffset : List Char → Bool
  | [] => true
  | ['Z'] => true
  | ['z'] => true
  | [sign, h1, h2, ':', m1, m2] =>
      (sign == '+' || sign == '-') && (twoDigits? 23 h1 h2).isSome && (twoDigits? 59 m1 m2).isSome
  | _ => false

/-- What follows a time of day; nothing when none is there. Seconds may be left out, and may have
a fraction. -/
def afterTime? : List Char → Option (List Char)
  | h1 :: h2 :: ':' :: m1 :: m2 :: rest => do
      let _ ← twoDigits? 23 h1 h2
      let _ ← twoDigits? 59 m1 m2
      match rest with
      | ':' :: s1 :: s2 :: rest => do
          let _ ← twoDigits? 60 s1 s2
          match rest with
          | '.' :: rest => do
              let digits := rest.takeWhile Char.isDigit
              if digits.isEmpty then none else some (rest.drop digits.length)
          | _ => some rest
      | _ => some rest
  | _ => none

def isMoment (cs : List Char) : Bool :=
  match cs.drop 10 with
  | [] => isDate cs || afterTime? cs == some []
  | mark :: time =>
      (isDate (cs.take 10) && (mark == 'T' || mark == 't' || mark == ' ')
        && ((afterTime? time).map isOffset).getD false)
      || afterTime? cs == some []

/-! ## Scalars -/

def scalar? (cs : List Char) : Option Value :=
  match String.ofList cs with
  | "true" => some (.boolean true)
  | "false" => some (.boolean false)
  | text =>
      match based? cs with
      | some n => some (.integer n)
      | none =>
          match number? cs with
          | some v => some v
          | none => if isMoment cs then some (.moment text) else none

end Tabula.Toml
