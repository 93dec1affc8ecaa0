/-!
# Strings in TOML

Strings stand between quotes, with backslash escapes, or between apostrophes, as they are. Three
quotes or apostrophes make a string of several lines, which may end with up to two of them more
than the closing three. Of control characters a string holds tabs, and one of several lines the
ends of its lines as they are written.
-/

set_option autoImplicit false

namespace Tabula.Toml

def isPlain (c : Char) : Bool := c = '\t' || (0x20 ≤ c.toNat && c.toNat ≠ 0x7f)

def isSpace (c : Char) : Bool := c = ' ' || c = '\t'

def newline? : List Char → Option (List Char × List Char)
  | '\n' :: rest => some (['\n'], rest)
  | '\r' :: '\n' :: rest => some (['\r', '\n'], rest)
  | _ => none

def afterNewline? (cs : List Char) : Option (List Char) := (newline? cs).map (·.2)

/-! ## Escapes -/

def hexDigit? (c : Char) : Option Nat :=
  if '0' ≤ c ∧ c ≤ '9' then some (c.toNat - '0'.toNat)
  else if 'a' ≤ c ∧ c ≤ 'f' then some (c.toNat - 'a'.toNat + 10)
  else if 'A' ≤ c ∧ c ≤ 'F' then some (c.toNat - 'A'.toNat + 10)
  else none

def codePoint? (digits : List Char) : Option Char := do
  let code := (← digits.mapM hexDigit?).foldl (fun n d => n * 16 + d) 0
  if code.isValidChar then some (Char.ofNat code) else none

def escapeWidth? (c : Char) : Option Nat :=
  match c with
  | 'x' => some 2
  | 'u' => some 4
  | 'U' => some 8
  | _ => none

def escaped? (c : Char) : Option Char :=
  match c with
  | '"' => some '"'
  | '\\' => some '\\'
  | 'b' => some '\x08'
  | 'e' => some '\x1b'
  | 'f' => some '\x0c'
  | 'n' => some '\n'
  | 'r' => some '\r'
  | 't' => some '\t'
  | _ => none

def escape? : List Char → Option (Char × List Char)
  | [] => none
  | c :: rest =>
      match escapeWidth? c with
      | some width =>
          let digits := rest.take width
          if digits.length = width then (codePoint? digits).map (·, rest.drop width) else none
      | none => (escaped? c).map (·, rest)

/-! ## One line -/

/-- Reads the rest of a quoted string on one line after its opening quote. -/
def quoted? : Nat → List Char → Option (List Char × List Char)
  | 0, _ => none
  | _, [] => none
  | _ + 1, '"' :: rest => some ([], rest)
  | fuel + 1, '\\' :: rest => do
      let (c, rest) ← escape? rest
      let (s, rest) ← quoted? fuel rest
      some (c :: s, rest)
  | fuel + 1, c :: rest =>
      if isPlain c then (quoted? fuel rest).map fun (s, rest) => (c :: s, rest) else none

/-- Reads the rest of a literal string on one line after its opening apostrophe. -/
def literal? : List Char → Option (List Char × List Char)
  | [] => none
  | '\'' :: rest => some ([], rest)
  | c :: rest =>
      if isPlain c then (literal? rest).map fun (s, rest) => (c :: s, rest) else none

/-! ## Several lines -/

/-- The marks that belong to a string whose closing three marks may be preceded by up to two
more, and what follows the closing ones; nothing when no three marks follow. -/
def closing? (mark : Char) (cs : List Char) : Option (List Char × List Char) :=
  let marks := (cs.takeWhile (· = mark)).take 5
  if marks.length < 3 then none else some (marks.drop 3, cs.drop marks.length)

/-- Drops blanks and line ends, after the backslash at the end of a line. -/
def skipLines : Nat → List Char → List Char
  | 0, cs => cs
  | fuel + 1, cs =>
      let cs := cs.dropWhile isSpace
      match afterNewline? cs with
      | some rest => skipLines fuel rest
      | none => cs

/-- Reads the rest of a string of several lines: a quoted one if the mark is a quote, else a
literal one. -/
def lines? (mark : Char) : Nat → List Char → Option (List Char × List Char)
  | 0, _ => none
  | fuel + 1, cs =>
      match closing? mark cs, newline? cs, cs with
      | some (marks, rest), _, _ => some (marks, rest)
      | none, some (ending, rest), _ =>
          (lines? mark fuel rest).map fun (s, rest) => (ending ++ s, rest)
      | none, none, [] => none
      | none, none, c :: rest =>
          if mark = '"' ∧ c = '\\' then
            if (afterNewline? (rest.dropWhile isSpace)).isSome then
              lines? mark fuel (skipLines rest.length rest)
            else do
              let (c, rest) ← escape? rest
              let (s, rest) ← lines? mark fuel rest
              some (c :: s, rest)
          else if isPlain c then
            (lines? mark fuel rest).map fun (s, rest) => (c :: s, rest)
          else none

/-- Reads a string of several lines after its opening marks. A line end right after them does not
belong to it. -/
def block? (mark : Char) (cs : List Char) : Option (List Char × List Char) :=
  let cs := (afterNewline? cs).getD cs
  lines? mark (cs.length + 1) cs

def line? : List Char → Option (List Char × List Char)
  | '"' :: rest => quoted? (rest.length + 1) rest
  | '\'' :: rest => literal? rest
  | _ => none

def string? : List Char → Option (List Char × List Char)
  | '"' :: '"' :: '"' :: rest => block? '"' rest
  | '\'' :: '\'' :: '\'' :: rest => block? '\'' rest
  | cs => line? cs

end Tabula.Toml
