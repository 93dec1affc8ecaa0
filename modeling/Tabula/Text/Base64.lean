/-!
# Base 64

Bytes are written three at a time as four digits of six bits, the most significant first. A last
group of one or two bytes is filled up with zero bits and padded to four characters.
-/

set_option autoImplicit false

namespace Tabula.Base64

def alphabet : List Char :=
  "ABCDEFGHIJKLMNOPQRSTUVWXYZabcdefghijklmnopqrstuvwxyz0123456789+/".toList

def digit (n : Nat) : Char := alphabet.getD (n % 64) '='

def digits : List UInt8 → List Char
  | [] => []
  | [a] =>
      let n := a.toNat <<< 4
      [digit (n >>> 6), digit n, '=', '=']
  | [a, b] =>
      let n := (a.toNat <<< 8 ||| b.toNat) <<< 2
      [digit (n >>> 12), digit (n >>> 6), digit n, '=']
  | a :: b :: c :: rest =>
      let n := a.toNat <<< 16 ||| b.toNat <<< 8 ||| c.toNat
      digit (n >>> 18) :: digit (n >>> 12) :: digit (n >>> 6) :: digit n :: digits rest

end Tabula.Base64
