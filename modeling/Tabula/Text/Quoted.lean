import Tabula.Text.CharClass

/-!
# Quoted text in messages

Messages quote names that come from a query: between double quotes, with quotes and backslashes
escaped, and with every character that does not print as itself written by its code point.
-/

set_option autoImplicit false

namespace Tabula.Text

def quotedChar (c : Char) : String :=
  match c with
  | '"' => "\\\""
  | '\\' => "\\\\"
  | '\n' => "\\n"
  | '\r' => "\\r"
  | '\t' => "\\t"
  | '\x00' => "\\0"
  | c =>
      if (0x20 ≤ c.toNat && c.toNat < 0x7f) || isPrinted c then String.singleton c
      else "\\u\x7b" ++ String.ofList (Nat.toDigits 16 c.toNat) ++ "\x7d"

def quoted (s : String) : String := "\"" ++ String.join (s.toList.map quotedChar) ++ "\""

def quotedList (items : List String) : String :=
  "[" ++ String.intercalate ", " (items.map quoted) ++ "]"

def natList (items : List Nat) : String :=
  "[" ++ String.intercalate ", " (items.map fun (n : Nat) => toString n) ++ "]"

end Tabula.Text
