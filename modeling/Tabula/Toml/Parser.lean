import Tabula.Toml.Scalar
import Tabula.Toml.Text

/-!
# Reading TOML

`Toml.parse?` reads a document line by line: a key with its value, the header of a table, or the
header of an array of tables, each with blanks around it and perhaps a comment behind it. No more
than 80 brackets may be open at once in a value, and no more than 80 keys joined by points.
-/

set_option autoImplicit false

namespace Tabula.Toml

/-- The number of brackets that may be open at once, and of keys that may be joined. -/
def maxDepth : Nat := 80

/-! ## Blanks -/

/-- Drops the comment at the front, if there is one. It ends with its line and holds no control
characters but tabs. -/
def afterComment? : List Char → Option (List Char)
  | '#' :: rest =>
      let rest := rest.dropWhile isPlain
      if rest = [] ∨ (afterNewline? rest).isSome then some rest else none
  | cs => some cs

/-- Drops blanks, comments and line ends. -/
def skipBlank? : Nat → List Char → Option (List Char)
  | 0, cs => some cs
  | fuel + 1, cs => do
      let cs ← afterComment? (cs.dropWhile isSpace)
      match afterNewline? cs with
      | some rest => skipBlank? fuel rest
      | none => some cs

def blank? (cs : List Char) : Option (List Char) := skipBlank? cs.length cs

/-- What follows the end of a line, or nothing at the end of the document. -/
def endLine? (cs : List Char) : Option (List Char) := do
  let cs ← afterComment? (cs.dropWhile isSpace)
  if cs = [] then some [] else afterNewline? cs

/-! ## Keys -/

def isBare (c : Char) : Bool := c.isAlphanum || c = '_' || c = '-'

def simpleKey? (cs : List Char) : Option (String × List Char) :=
  match line? cs with
  | some (s, rest) => some (String.ofList s, rest)
  | none =>
      match cs.span isBare with
      | ([], _) => none
      | (name, rest) => some (String.ofList name, rest)

/-- Reads at most so many keys joined by points, with blanks around each: those before the last,
and the last. -/
def joinedKeys? : Nat → List Char → Option ((List String × String) × List Char)
  | 0, _ => none
  | depth + 1, cs => do
      let (name, rest) ← simpleKey? (cs.dropWhile isSpace)
      match rest.dropWhile isSpace with
      | '.' :: rest => do
          let ((path, key), rest) ← joinedKeys? depth rest
          some ((name :: path, key), rest)
      | rest => some (([], name), rest)

/-- Reads a key: its path, and its name under that path. -/
def key? (cs : List Char) : Option ((List String × String) × List Char) := joinedKeys? maxDepth cs

/-! ## Values -/

def isScalar (c : Char) : Bool := c.isAlphanum || "+-._:".contains c

/-- Reads a value without quotes. The two parts of a moment may stand apart. -/
def bareValue? (cs : List Char) : Option (Value × List Char) :=
  let (text, rest) := cs.span isScalar
  let (text, rest) := match isDate text, rest with
    | true, ' ' :: c :: more =>
        if c.isDigit then
          let (time, rest) := (c :: more).span isScalar
          (text ++ ' ' :: time, rest)
        else (text, rest)
    | _, _ => (text, rest)
  (scalar? text).map (·, rest)

/-- Reads the values of an array after its opening bracket. The last may be followed by a comma. -/
def items? (item : List Char → Option (Value × List Char)) :
    Nat → List Char → Option (List Value × List Char)
  | 0, _ => none
  | fuel + 1, cs => do
      match ← blank? cs with
      | ']' :: rest => some ([], rest)
      | cs => do
          let (v, rest) ← item cs
          match ← blank? rest with
          | ',' :: rest => do
              let (vs, rest) ← items? item fuel rest
              some (v :: vs, rest)
          | ']' :: rest => some ([v], rest)
          | _ => none

/-- Reads a key and its value. What may stand before and behind the equals sign between them is
dropped by `gap`. -/
def pair? (gap : List Char → Option (List Char)) (item : List Char → Option (Value × List Char))
    (cs : List Char) : Option ((List String × String × Value) × List Char) := do
  let ((path, key), rest) ← key? cs
  match ← gap rest with
  | '=' :: rest => do
      let (v, rest) ← item (← gap rest)
      some ((path, key, v), rest)
  | _ => none

/-- Reads the entries of an inline table after its opening brace, into those read before. Its lines
may end anywhere but inside a key. -/
def entries? (item : List Char → Option (Value × List Char)) :
    Nat → Entries → List Char → Option (Entries × List Char)
  | 0, _, _ => none
  | fuel + 1, entries, cs => do
      match ← blank? cs with
      | '\x7d' :: rest => some (entries, rest)
      | cs => do
          let ((path, key, v), rest) ← pair? blank? item cs
          let entries ← entries.assign path key v .header
          match ← blank? rest with
          | ',' :: rest => entries? item fuel entries rest
          | '\x7d' :: rest => some (entries, rest)
          | _ => none

/-- Reads a value in which at most `depth` brackets may be open at once. -/
def value? (depth : Nat) (cs : List Char) : Option (Value × List Char) :=
  match cs with
  | '[' :: rest =>
      match depth with
      | 0 => none
      | depth + 1 => (items? (value? depth) (rest.length + 1) rest).map fun (vs, rest) =>
          (.array vs, rest)
  | '\x7b' :: rest =>
      match depth with
      | 0 => none
      | depth + 1 => (entries? (value? depth) (rest.length + 1) [] rest).map fun (es, rest) =>
          (.table .inline es, rest)
  | _ =>
      match cs.head? with
      | some '"' => (string? cs).map fun (s, rest) => (.string (String.ofList s), rest)
      | some '\'' => (string? cs).map fun (s, rest) => (.string (String.ofList s), rest)
      | _ => bareValue? cs

/-! ## Documents -/

/-- A document that is being read: all of it so far, and the path of the table that keys go to. -/
structure Draft where
  entries : Entries
  current : List String
  deriving Inhabited

namespace Draft

def assign (path : List String) (key : String) (value : Value) (d : Draft) : Option Draft :=
  (d.entries.within false (fun kind => Entries.assign path key value kind) d.current .header).map
    fun entries => { d with entries }

/-- Opens the table of a header. -/
def openTable (path : List String) (key : String) (d : Draft) : Option Draft :=
  (d.entries.within false (fun _ => Entries.claim key) path .header).map
    fun entries => { entries, current := path ++ [key] }

def openItem (path : List String) (key : String) (d : Draft) : Option Draft :=
  (d.entries.within false (fun _ => Entries.append key) path .header).map
    fun entries => { entries, current := path ++ [key] }

end Draft

/-- Reads what a line may hold after its leading blanks. -/
def expression? (d : Draft) (cs : List Char) : Option (Draft × List Char) :=
  match cs with
  | '[' :: '[' :: rest => do
      let ((path, key), rest) ← key? rest
      match rest with
      | ']' :: ']' :: rest => some (← d.openItem path key, rest)
      | _ => none
  | '[' :: rest => do
      let ((path, key), rest) ← key? rest
      match rest with
      | ']' :: rest => some (← d.openTable path key, rest)
      | _ => none
  | _ => do
      let gap (cs : List Char) : Option (List Char) := some (cs.dropWhile isSpace)
      let ((path, key, v), rest) ← pair? gap (value? maxDepth) cs
      some (← d.assign path key v, rest)

def document? : Nat → Draft → List Char → Option Entries
  | 0, _, _ => none
  | fuel + 1, d, cs => do
      match ← blank? cs with
      | [] => some d.entries
      | cs => do
          let (d, rest) ← expression? d cs
          document? fuel d (← endLine? rest)

/-- The document that a text holds. A mark of the byte order may precede it. -/
def parse? (text : String) : Option Entries :=
  let cs := match text.toList with
    | '\ufeff' :: rest => rest
    | cs => cs
  document? (cs.length + 1) { entries := [], current := [] } cs

end Tabula.Toml
