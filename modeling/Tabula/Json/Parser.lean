import Tabula.Json.Value
import Tabula.Number.Text

/-!
# Reading JSON

`Json.parse?` reads one value and nothing after it but blanks. It is strict: no leading zeros,
no trailing commas, no raw control characters in strings, no half of a surrogate pair, no number
beyond the doubles, and no more than 127 brackets open at once.

A fractional number is rounded twice: its digits, as far as they fit into 64 bits, to a double,
and that double scaled by a power of ten.
-/

set_option autoImplicit false

namespace Tabula.Json.Parser

def skipBlank : List Char → List Char
  | c :: rest =>
      if c = ' ' ∨ c = '\n' ∨ c = '\t' ∨ c = '\r' then skipBlank rest else c :: rest
  | [] => []

/-! ## Numbers -/

def digitValue (c : Char) : Nat := c.toNat - '0'.toNat

/-- Appends digits to a significand as long as it stays below `2^64`; gives the significand and
the number of digits that fitted. -/
def appendDigits : Nat → List Char → Nat × Nat
  | s, [] => (s, 0)
  | s, c :: rest =>
      let s' := s * 10 + digitValue c
      if s' < Nat.pow 2 64 then
        let (whole, count) := appendDigits s' rest
        (whole, count + 1)
      else (s, 0)

/-- A significand rounded to a double and then scaled by a power of ten; nothing when the
result is too large. Below `10 ^ -308` it is scaled in two steps. -/
def scale? (significand : Nat) (exponent : Int) : Option Float :=
  let x := Float.ofNat significand
  if significand = 0 then some 0.0
  else if 308 < exponent then none
  else if 0 ≤ exponent then
    let y := x * Float.ofScientific 1 false exponent.toNat
    if y.isFinite then some y else none
  else if -308 ≤ exponent then some (x / Float.ofScientific 1 false (-exponent).toNat)
  else if -616 ≤ exponent then
    some (x / Float.ofScientific 1 false 308 / Float.ofScientific 1 false (-exponent - 308).toNat)
  else some 0.0

/-- The digits after the point, if a point follows. A point needs a digit after it. -/
def fraction? : List Char → Option (Option (List Char) × List Char)
  | '.' :: rest =>
      match rest.span Char.isDigit with
      | ([], _) => none
      | (digits, rest) => some (some digits, rest)
  | cs => some (none, cs)

/-- The sign and digits of the exponent, if one follows. It needs a digit. -/
def exponent? : List Char → Option (Option Int × List Char)
  | c :: rest =>
      if c = 'e' ∨ c = 'E' then
        let (negative, rest) := match rest with
          | '-' :: rest => (true, rest)
          | '+' :: rest => (false, rest)
          | _ => (false, rest)
        match rest.span Char.isDigit with
        | ([], _) => none
        | (digits, rest) =>
            let magnitude : Int := digits.foldl (fun n d => n * 10 + digitValue d) 0
            some (some (if negative then -magnitude else magnitude), rest)
      else some (none, c :: rest)
  | [] => some (none, [])

/-- The number written by a sign, digits before and after the point, and an exponent. Without
point and exponent it is an integer if it lies between `-2^63` and `2^64 - 1` and is not `-0`. -/
def number? (negative : Bool) (whole : List Char) (fraction : Option (List Char))
    (exponent : Option Int) : Option Number :=
  let (s, used) := appendDigits 0 whole
  let signed (x : Float) := if negative then -x else x
  let isInteger := fraction.isNone && exponent.isNone && used == whole.length
  if isInteger && !negative then some (.int s)
  else if isInteger && 0 < s && s ≤ Nat.pow 2 63 then some (.int (-(s : Int)))
  else
    let (s, places) := appendDigits s (fraction.getD [])
    (scale? s (exponent.getD 0 + (whole.length - used : Nat) - places)).map
      fun x => .float (signed x)

def number (cs : List Char) : Option (Number × List Char) := do
  let (negative, cs) := match cs with
    | '-' :: rest => (true, rest)
    | _ => (false, cs)
  let (whole, cs) := cs.span Char.isDigit
  match whole with
  | [] => none
  | '0' :: _ :: _ => none
  | _ => do
      let (fraction, cs) ← fraction? cs
      let (exponent, cs) ← exponent? cs
      let n ← number? negative whole fraction exponent
      some (n, cs)

/-! ## Strings -/

def hexValue? (c : Char) : Option Nat :=
  if c.isDigit then some (digitValue c)
  else if 'a' ≤ c ∧ c ≤ 'f' then some (c.toNat - 'a'.toNat + 10)
  else if 'A' ≤ c ∧ c ≤ 'F' then some (c.toNat - 'A'.toNat + 10)
  else none

def hex4? (a b c d : Char) : Option Nat := do
  let a ← hexValue? a
  let b ← hexValue? b
  let c ← hexValue? c
  let d ← hexValue? d
  some (((a * 16 + b) * 16 + c) * 16 + d)

/-- The character that stands for a backslash and `c`. -/
def escaped? (c : Char) : Option Char :=
  match c with
  | '"' => some '"'
  | '\\' => some '\\'
  | '/' => some '/'
  | 'b' => some '\x08'
  | 'f' => some '\x0c'
  | 'n' => some '\n'
  | 'r' => some '\r'
  | 't' => some '\t'
  | _ => none

def string : List Char → Option (List Char × List Char)
  | [] => none
  | '"' :: rest => some ([], rest)
  | '\\' :: 'u' :: a :: b :: c :: d :: rest =>
      match hex4? a b c d with
      | none => none
      | some high =>
          -- the first half of a pair needs the second one behind it
          if high < 0xd800 ∨ 0xdfff < high then
            (string rest).map fun (s, rest) => (Char.ofNat high :: s, rest)
          else if 0xdbff < high then none
          else match rest with
            | '\\' :: 'u' :: a :: b :: c :: d :: rest =>
                match hex4? a b c d with
                | none => none
                | some low =>
                    if low < 0xdc00 ∨ 0xdfff < low then none
                    else
                      let code := 0x10000 + (high - 0xd800) * 0x400 + (low - 0xdc00)
                      (string rest).map fun (s, rest) => (Char.ofNat code :: s, rest)
            | _ => none
  | '\\' :: c :: rest =>
      match escaped? c with
      | some c => (string rest).map fun (s, rest) => (c :: s, rest)
      | none => none
  | c :: rest =>
      if c.toNat < 0x20 ∨ c = '\\' then none
      else (string rest).map fun (s, rest) => (c :: s, rest)

/-! ## Values -/

/-- Reads the elements of an array that has at least one, and the closing bracket. -/
def elements (item : List Char → Option (Json × List Char)) :
    Nat → List Char → Option (List Json × List Char)
  | 0, _ => none
  | fuel + 1, cs => do
      let (v, cs) ← item cs
      match skipBlank cs with
      | ',' :: rest =>
          let (vs, rest) ← elements item fuel rest
          some (v :: vs, rest)
      | ']' :: rest => some ([v], rest)
      | _ => none

/-- Reads the members of an object that has at least one, and the closing brace. -/
def members (item : List Char → Option (Json × List Char)) :
    Nat → List Char → Option (Fields × List Char)
  | 0, _ => none
  | fuel + 1, cs => do
      match skipBlank cs with
      | '"' :: rest =>
          let (key, rest) ← string rest
          match skipBlank rest with
          | ':' :: rest =>
              let (v, rest) ← item rest
              match skipBlank rest with
              | ',' :: rest =>
                  let (vs, rest) ← members item fuel rest
                  some ((String.ofList key, v) :: vs, rest)
              | '\x7d' :: rest => some ([(String.ofList key, v)], rest)
              | _ => none
          | _ => none
      | _ => none

/-- Reads a value in which at most `depth` brackets may be open at once. -/
def value (depth : Nat) (cs : List Char) : Option (Json × List Char) :=
  match skipBlank cs with
  | 'n' :: 'u' :: 'l' :: 'l' :: rest => some (.null, rest)
  | 't' :: 'r' :: 'u' :: 'e' :: rest => some (.bool true, rest)
  | 'f' :: 'a' :: 'l' :: 's' :: 'e' :: rest => some (.bool false, rest)
  | '"' :: rest => (string rest).map fun (s, rest) => (.str (String.ofList s), rest)
  | '[' :: rest =>
      match depth with
      | 0 => none
      | depth + 1 =>
          match skipBlank rest with
          | ']' :: rest => some (.arr [], rest)
          | rest => (elements (value depth) rest.length rest).map fun (vs, rest) => (.arr vs, rest)
  | '\x7b' :: rest =>
      match depth with
      | 0 => none
      | depth + 1 =>
          match skipBlank rest with
          | '\x7d' :: rest => some (.obj [], rest)
          | rest => (members (value depth) rest.length rest).map fun (vs, rest) =>
              (.obj (Fields.ofList vs), rest)
  | rest => (number rest).map fun (n, rest) => (.num n, rest)

end Tabula.Json.Parser

namespace Tabula.Json

def parse? (text : String) : Option Json :=
  match Parser.value 127 text.toList with
  | some (v, rest) => if Parser.skipBlank rest = [] then some v else none
  | none => none

end Tabula.Json
