import Tabula.Json.Value
import Tabula.Number.Text

/-!
# Writing JSON

`Json.compact` writes a value without blanks, `Json.pretty` over several lines, indented by two
spaces. Strings escape quotes, backslashes and control characters and leave all else as it is.
-/

set_option autoImplicit false

namespace Tabula.Json

def hexDigit (n : Nat) : Char := if n < 10 then Char.ofNat (48 + n) else Char.ofNat (87 + n)

def escapeChar (c : Char) : List Char :=
  match c with
  | '"' => ['\\', '"']
  | '\\' => ['\\', '\\']
  | '\x08' => ['\\', 'b']
  | '\x0c' => ['\\', 'f']
  | '\n' => ['\\', 'n']
  | '\r' => ['\\', 'r']
  | '\t' => ['\\', 't']
  | c =>
      if c.toNat < 0x20 then
        ['\\', 'u', '0', '0', hexDigit (c.toNat / 16), hexDigit (c.toNat % 16)]
      else [c]

def quote (s : String) : String :=
  "\"" ++ String.ofList (s.toList.flatMap escapeChar) ++ "\""

/-! ## On one line -/

mutual

def compact : Json → String
  | null => "null"
  | bool true => "true"
  | bool false => "false"
  | num n => n.text
  | str s => quote s
  | arr items => "[" ++ compactItems items ++ "]"
  | obj fields => "\x7b" ++ compactFields fields ++ "\x7d"

def compactItems : List Json → String
  | [] => ""
  | [v] => compact v
  | v :: rest => compact v ++ "," ++ compactItems rest

def compactFields : List (String × Json) → String
  | [] => ""
  | [(k, v)] => quote k ++ ":" ++ compact v
  | (k, v) :: rest => quote k ++ ":" ++ compact v ++ "," ++ compactFields rest

end

/-! ## Over several lines -/

def newline (indent : Nat) : String := "\n" ++ String.ofList (List.replicate (2 * indent) ' ')

mutual

/-- A value over several lines, whose later lines are indented at least by `indent`. -/
def prettyAt (indent : Nat) : Json → String
  | arr [] => "[]"
  | arr (v :: items) =>
      "[" ++ newline (indent + 1) ++ prettyAt (indent + 1) v ++ prettyItems (indent + 1) items
        ++ newline indent ++ "]"
  | obj [] => "\x7b\x7d"
  | obj ((k, v) :: fields) =>
      "\x7b" ++ newline (indent + 1) ++ quote k ++ ": " ++ prettyAt (indent + 1) v
        ++ prettyFields (indent + 1) fields ++ newline indent ++ "\x7d"
  | null => "null"
  | bool true => "true"
  | bool false => "false"
  | num n => n.text
  | str s => quote s

def prettyItems (indent : Nat) : List Json → String
  | [] => ""
  | v :: rest => "," ++ newline indent ++ prettyAt indent v ++ prettyItems indent rest

def prettyFields (indent : Nat) : List (String × Json) → String
  | [] => ""
  | (k, v) :: rest =>
      "," ++ newline indent ++ quote k ++ ": " ++ prettyAt indent v ++ prettyFields indent rest

end

def pretty (v : Json) : String := prettyAt 0 v

end Tabula.Json
