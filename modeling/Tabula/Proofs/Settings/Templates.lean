import Mathlib.Data.List.Basic
import Tabula.Proofs.Results
import Tabula.Settings.Basic

/-!
# Templates as they are written

A template is written as texts without a dollar sign and references in braces, one after another
(`Piece`, `written`). Reading it finds again what was written, each text character by character and
each reference whole (`segments_written`), so nothing that follows a piece changes what it is. The
template then stands for the texts and the values of the variables, unless a variable is not set
(`expand_written`). What a value holds makes no difference, since values are not read.
-/

set_option autoImplicit false

namespace Tabula.Template

/-! ## Pieces -/

/-- A part of a template as it is written: a text without a dollar sign, or a reference in braces to
a variable without a closing one in its name. -/
inductive Piece where
  | text (s : String) (plain : '$' ∉ s.toList)
  | reference (name : String) (closed : '\x7d' ∉ name.toList)

namespace Piece

def written : Piece → String
  | text s _ => s
  | reference name _ => "$\x7b" ++ name ++ "\x7d"

/-- What is found where a piece is read. -/
def segments : Piece → List Segment
  | text s _ => s.toList.map .char
  | reference name _ => [.reference name]

def name? : Piece → Option String
  | text _ _ => none
  | reference name _ => some name

/-- The text that a piece stands for when its variable is set. -/
def shown (environment : String → Option String) : Piece → String
  | text s _ => s
  | reference name _ => (environment name).getD ""

end Piece

def written (pieces : List Piece) : String := String.join (pieces.map Piece.written)

def references (pieces : List Piece) : List String := pieces.filterMap Piece.name?

/-! ## Reading -/

theorem segments_char {c : Char} (h : c ≠ '$') (rest : List Char) :
    segments (c :: rest) = .char c :: segments rest := by
  rw [segments]
  · exact fun _ heq _ => h heq
  · exact h

/-- A text is read character by character, whatever follows it. -/
theorem segments_text {cs : List Char} (h : '$' ∉ cs) (rest : List Char) :
    segments (cs ++ rest) = cs.map .char ++ segments rest := by
  induction cs with
  | nil => rfl
  | cons c cs ih =>
      obtain ⟨hc, hcs⟩ := not_or.mp (mt List.mem_cons.mpr h)
      rw [List.cons_append, segments_char (Ne.symm hc), ih hcs, List.map_cons, List.cons_append]

/-- A reference ends with the first brace that closes it, whatever follows. -/
theorem segments_reference {name : List Char} (h : '\x7d' ∉ name) (rest : List Char) :
    segments ('$' :: '\x7b' :: (name ++ '\x7d' :: rest))
      = .reference (String.ofList name) :: segments rest := by
  have hname : (name ++ '\x7d' :: rest).takeWhile (· ≠ '\x7d') = name := by
    rw [List.takeWhile_append_of_pos fun c hc => decide_eq_true (ne_of_mem_of_not_mem hc h)]
    simp
  have hrest : (name ++ '\x7d' :: rest).drop (name.length + 1) = rest := by
    rw [List.drop_append]
    simp
  rw [segments, hname, hrest]

/-- What is found at a piece does not depend on what follows it. -/
theorem segments_piece (p : Piece) (rest : List Char) :
    segments (p.written.toList ++ rest) = p.segments ++ segments rest := by
  cases p with
  | text s plain => exact segments_text plain rest
  | reference name closed =>
      have hchars : (Piece.reference name closed).written.toList ++ rest
          = '$' :: '\x7b' :: (name.toList ++ '\x7d' :: rest) := by
        simp [Piece.written]
      rw [hchars, segments_reference closed, String.ofList_toList]
      rfl

/-- **A template is read as it was written**, piece by piece. -/
theorem segments_written (pieces : List Piece) :
    segments (written pieces).toList = pieces.flatMap Piece.segments := by
  rw [written, String.toList_join, List.flatMap_map]
  induction pieces with
  | nil => rw [List.flatMap_nil, List.flatMap_nil, segments]
  | cons p pieces ih => rw [List.flatMap_cons, List.flatMap_cons, segments_piece, ih]

/-! ## Values -/

variable (environment : String → Option String)

/-- The text that some segments stand for, or the name of the first variable that is not set. -/
def valueAll (found : List Segment) : Except String (List Char) :=
  (found.mapM (value environment)).map List.flatten

theorem expand_eq (template : String) :
    expand environment template
      = (valueAll environment (segments template.toList)).map String.ofList := by
  rw [expand, valueAll]
  cases (segments template.toList).mapM (value environment) <;> rfl

theorem valueAll_append (found more : List Segment) :
    valueAll environment (found ++ more)
      = valueAll environment found >>= fun text =>
          (valueAll environment more).map (text ++ ·) := by
  rw [valueAll, List.mapM_append, Results.map_bind, valueAll, Results.bind_map]
  refine congrArg (_ >>= ·) (funext fun texts => ?_)
  rw [Results.map_bind, valueAll]
  cases more.mapM (value environment) with
  | error name => rfl
  | ok texts' => exact congrArg Except.ok List.flatten_append

theorem valueAll_text (cs : List Char) : valueAll environment (cs.map .char) = .ok cs := by
  have hchars : (cs.map Segment.char).mapM (value environment) = .ok (cs.map fun c => [c]) := by
    rw [List.mapM_map]
    exact Results.mapM_of_eq_ok fun c _ => rfl
  rw [valueAll, hchars]
  exact congrArg Except.ok (List.flatMap_singleton' cs)

theorem valueAll_reference (name : String) :
    valueAll environment [.reference name]
      = match environment name with
        | some text => .ok text.toList
        | none => .error name := by
  rw [valueAll, List.mapM_cons, value]
  cases environment name with
  | none => rfl
  | some text => exact congrArg Except.ok (List.append_nil _)

/-- The first of some pieces whose variable is not set decides, and when there is none, what each
of them stands for. -/
theorem valueAll_pieces (pieces : List Piece) :
    valueAll environment (pieces.flatMap Piece.segments)
      = match (references pieces).find? fun name => (environment name).isNone with
        | some name => .error name
        | none => .ok (pieces.flatMap fun p => (p.shown environment).toList) := by
  -- on the pieces: the first variable that is not set decides
  induction pieces with
  | nil => rfl
  | cons p pieces ih =>
      rw [List.flatMap_cons, valueAll_append, ih]
      cases p with
      | text s plain =>
          have hsame : references (.text s plain :: pieces) = references pieces := rfl
          rw [Piece.segments, valueAll_text, Results.ok_bind, hsame]
          cases (references pieces).find? fun name => (environment name).isNone with
          | none => rfl
          | some name => rfl
      | reference name closed =>
          have hfirst : references (.reference name closed :: pieces) = name :: references pieces :=
            rfl
          rw [Piece.segments, valueAll_reference, hfirst]
          cases hname : environment name with
          | none =>
              rw [List.find?_cons_of_pos (by rw [hname]; rfl)]
              rfl
          | some text =>
              rw [List.find?_cons_of_neg (by simp [hname]), Results.ok_bind]
              cases (references pieces).find? fun name => (environment name).isNone with
              | none => simp [Piece.shown, hname, Except.map]
              | some name => rfl

/-- **A template stands for its texts and the values of its variables**, whatever these hold, unless
a variable is not set: then the first such is missed. -/
theorem expand_written (pieces : List Piece) :
    (expand environment (written pieces)).mapError SettingsError.missingVariable
      = match (references pieces).find? fun name => (environment name).isNone with
        | some name => .error (.missingVariable name)
        | none => .ok (String.join (pieces.map (Piece.shown environment))) := by
  rw [expand_eq, segments_written, valueAll_pieces]
  cases (references pieces).find? fun name => (environment name).isNone with
  | some name => rfl
  | none =>
      refine congrArg Except.ok (String.toList_inj.mp ?_)
      rw [String.toList_ofList, String.toList_join, List.flatMap_map]

/-- A value that looks like a reference is put in as it is. -/
example : expand (fun name => if name = "A" then some "$\x7bB\x7d" else none)
    "$\x7bA\x7d$\x7bA\x7d-" = .ok "$\x7bB\x7d$\x7bB\x7d-" := by cbv

end Tabula.Template
