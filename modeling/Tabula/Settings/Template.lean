import Tabula.Text.CharClass

/-!
# Templates

A template is text that refers to environment variables, as `${NAME}` or as `$NAME`, where the
name without braces is the longest run of letters, digits and underscores. A dollar sign before
anything else stands for itself. Values are put in as they are: a dollar sign in a value refers
to nothing.
-/

set_option autoImplicit false

namespace Tabula.Template

inductive Segment where
  | char (c : Char)
  | reference (name : String)
  deriving DecidableEq, Inhabited

/-- Whether a character belongs to a name without braces. -/
def isNameChar (c : Char) : Bool := Text.isAlphanumeric c || c = '_'

/-- The pieces of a template. A name whose brace is not closed ends with the template. -/
def segments : List Char → List Segment
  | [] => []
  | '$' :: '\x7b' :: rest =>
      let name := rest.takeWhile (· ≠ '\x7d')
      .reference (String.ofList name) :: segments (rest.drop (name.length + 1))
  | '$' :: rest =>
      let name := rest.takeWhile isNameChar
      if name.isEmpty then .char '$' :: segments rest
      else .reference (String.ofList name) :: segments (rest.drop name.length)
  | c :: rest => .char c :: segments rest
  termination_by cs => cs.length
  decreasing_by all_goals simp <;> omega

def names (template : String) : List String :=
  (segments template.toList).filterMap fun
    | .reference name => some name
    | .char _ => none

/-- The text that a piece stands for, or the name of a variable that is not set. -/
def value (environment : String → Option String) : Segment → Except String (List Char)
  | .char c => .ok [c]
  | .reference name =>
      match environment name with
      | some text => .ok text.toList
      | none => .error name

/-- The text that a template stands for, or the name of the first variable that is not set. -/
def expand (environment : String → Option String) (template : String) : Except String String :=
  ((segments template.toList).mapM (value environment)).map fun texts =>
    String.ofList texts.flatten

end Tabula.Template
