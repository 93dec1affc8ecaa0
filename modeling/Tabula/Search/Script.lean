import Tabula.Json.Printer

/-!
# Scripts

The backend evaluates scripts, which are text of another language. A script is kept as a list of
pieces, each either code or a quoted text, so that text from queries and catalogs can not be
taken for code: `Piece.render` puts it between single quotes and escapes quotes and backslashes
in it, whatever it holds.
-/

set_option autoImplicit false

namespace Tabula

inductive Piece where
  | code (source : String)
  /-- A text literal. -/
  | text (content : String)
  deriving DecidableEq, Inhabited

abbrev Script := List Piece

namespace Piece

def quotedChar (c : Char) : List Char :=
  if c = '\\' then ['\\', '\\'] else if c = '\'' then ['\\', '\''] else [c]

def quote (s : String) : String :=
  String.ofList ('\'' :: (s.toList.flatMap quotedChar ++ ['\'']))

def render : Piece → String
  | code source => source
  | text content => quote content

end Piece

namespace Script

def code (source : String) : Script := [.code source]

def render (s : Script) : String := String.join (s.map Piece.render)

def joined (separator : String) (parts : List Script) : Script :=
  List.intercalate [.code separator] parts

def toJson (s : Script) : Json :=
  .obj [("source", .str s.render), ("lang", .str "painless")]

mutual

/-- A value as a script. An object becomes the text of its JSON. -/
def ofValue : Json → Script
  | .null => code "null"
  | .bool true => code "true"
  | .bool false => code "false"
  | .num n => code n.text
  | .str s => [.text s]
  | .arr items => code "Arrays.asList(" ++ ofValues items ++ code ")"
  | .obj fields => [.text (Json.compact (.obj fields))]

def ofValues : List Json → Script
  | [] => []
  | [v] => ofValue v
  | v :: rest => ofValue v ++ code ", " ++ ofValues rest

end

def ofList (values : List Json) : Script := ofValue (.arr values)

/-- The value of a column in the document at hand, null when it has none. -/
def columnValue (stored : String) : Script :=
  [.code "(doc[", .text stored, .code "].size()==0 ? null : doc[", .text stored, .code "].value)"]

def coalesce : List Script → Script
  | [] => code "null"
  | [s] => s
  | s :: rest => code "(" ++ s ++ code " != null ? " ++ s ++ code " : " ++ coalesce rest ++ code ")"

end Script

end Tabula
