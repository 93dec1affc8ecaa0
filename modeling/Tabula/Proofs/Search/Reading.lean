import Tabula.Proofs.Number.Characters
import Tabula.Proofs.Json.Same
import Tabula.Search.Script

/-!
# How the source of a script is read

The backend reads the source of a script from left to right (`Script.Scan.run`). In the code it
counts brackets, and a single quote begins a text literal, which goes up to the next one that is not
behind a backslash. A script opens and closes brackets and contributes literals (`Script.Reads`),
and scripts that are put together do what their parts do (`Script.Reads.append`). A text literal is
read back as the text that it quotes, whatever it holds (`Script.reads_text`), and a value is read
as a whole of code with literals of its own (`Script.balanced_ofValue`).
-/

set_option autoImplicit false

namespace Tabula

/-! ## Literals of values -/

/-- The text literals that stand for a value: its texts, and its objects as the text of their
JSON. -/
inductive Json.Literal : Json → String → Prop
  | text (s : String) : Literal (.str s) s
  | object (fields : Fields) : Literal (.obj fields) (Json.compact (.obj fields))
  | element {items : List Json} {v : Json} {t : String} :
      v ∈ items → Literal v t → Literal (.arr items) t

namespace Script

/-! ## Reading -/

inductive Mode where
  | code
  /-- In a text literal, after what it holds so far. -/
  | text (content : List Char)
  /-- In a text literal, behind a backslash. -/
  | escape (content : List Char)

/-- What is known after reading a part of a source. -/
structure Scan where
  mode : Mode
  /-- The brackets that have to be closed, the innermost first. -/
  awaited : List Char
  /-- The text literals that are complete. -/
  texts : List String

def closing? (c : Char) : Option Char :=
  if c = '(' then some ')'
  else if c = '[' then some ']'
  else if c = '\x7b' then some '\x7d'
  else none

def isClosing (c : Char) : Bool := c = ')' || c = ']' || c = '\x7d'

namespace Scan

/-- Reads a character of the code. A closing bracket has to be the one that is awaited. -/
def stepCode (s : Scan) (c : Char) : Option Scan :=
  if c = '\'' then some { s with mode := .text [] }
  else match closing? c with
    | some close => some { s with awaited := close :: s.awaited }
    | none =>
        if isClosing c then
          match s.awaited with
          | [] => none
          | close :: rest => if close = c then some { s with awaited := rest } else none
        else some s

/-- Reads a character. Behind a backslash there has to be a backslash or a quote. -/
def step (s : Scan) (c : Char) : Option Scan :=
  match s.mode with
  | .code => s.stepCode c
  | .text content =>
      if c = '\'' then
        some { s with mode := .code, texts := s.texts ++ [String.ofList content] }
      else if c = '\\' then some { s with mode := .escape content }
      else some { s with mode := .text (content ++ [c]) }
  | .escape content =>
      if c = '\\' ∨ c = '\'' then some { s with mode := .text (content ++ [c]) } else none

def run (s : Scan) (cs : List Char) : Option Scan := cs.foldlM step s

def ofSource (source : String) : Option Scan := run ⟨.code, [], []⟩ source.toList

theorem run_cons (s : Scan) (c : Char) (cs : List Char) :
    s.run (c :: cs) = (s.step c).bind fun s' => s'.run cs := rfl

theorem run_append (s : Scan) (cs ds : List Char) :
    s.run (cs ++ ds) = (s.run cs).bind fun s' => s'.run ds := List.foldlM_append ..

variable (awaited : List Char) (texts : List String)

theorem run_quotedChar (content : List Char) (c : Char) :
    run ⟨.text content, awaited, texts⟩ (Piece.quotedChar c)
      = some ⟨.text (content ++ [c]), awaited, texts⟩ := by
  unfold Piece.quotedChar
  split
  next h =>
      subst h
      rfl
  next hslash =>
      split
      next h =>
          subst h
          rfl
      next hquote => simp [run, step, hslash, hquote]

theorem run_quotedChars (content cs : List Char) :
    run ⟨.text content, awaited, texts⟩ (cs.flatMap Piece.quotedChar)
      = some ⟨.text (content ++ cs), awaited, texts⟩ := by
  induction cs generalizing content with
  | nil => simp [run]
  | cons c cs ih =>
      rw [List.flatMap_cons, run_append, run_quotedChar, Option.bind_some, ih, List.append_assoc,
        List.singleton_append]

/-- **A text literal is read as the text that it quotes.** -/
theorem run_quote (s : String) :
    run ⟨.code, awaited, texts⟩ (Piece.quote s).toList = some ⟨.code, awaited, texts ++ [s]⟩ := by
  have hopen (cs : List Char) : run ⟨.code, awaited, texts⟩ ('\'' :: cs)
      = run ⟨.text [], awaited, texts⟩ cs := rfl
  rw [Piece.quote, String.toList_ofList, hopen, run_append, run_quotedChars, Option.bind_some,
    List.nil_append]
  show some (Scan.mk _ _ (texts ++ [String.ofList s.toList])) = _
  rw [String.ofList_toList]

/-- Characters that are neither quotes nor brackets leave everything as it is. -/
theorem run_plain {cs : List Char}
    (h : ∀ c ∈ cs, c ≠ '\'' ∧ closing? c = none ∧ isClosing c = false) :
    run ⟨.code, awaited, texts⟩ cs = some ⟨.code, awaited, texts⟩ := by
  induction cs with
  | nil => rfl
  | cons c cs ih =>
      obtain ⟨⟨hquote, hopen, hclose⟩, hcs⟩ := List.forall_mem_cons.mp h
      have hstep : step ⟨.code, awaited, texts⟩ c = some ⟨.code, awaited, texts⟩ := by
        simp [step, stepCode, hquote, hopen, hclose]
      rw [run_cons, hstep, Option.bind_some, ih hcs]

end Scan

/-! ## Scripts and their parts -/

section Reads

variable {P : String → Prop} {s t : Script} {a b c : List Char}

def texts (s : Script) : List String :=
  s.filterMap fun
    | .code _ => none
    | .text content => some content

/-- Whether a script is read from code to code, closing and opening brackets so that others are
awaited in the end, and its literals, which are of a kind, are found. -/
structure Reads (P : String → Prop) (before : List Char) (s : Script) (after : List Char) :
    Prop where
  run : ∀ texts, Scan.run ⟨.code, before, texts⟩ s.render.toList
    = some ⟨.code, after, texts ++ s.texts⟩
  texts : ∀ t ∈ s.texts, P t

theorem toList_render_append (s t : Script) :
    (render (s ++ t)).toList = s.render.toList ++ t.render.toList := by
  simp [render, String.join_append]

theorem texts_append (s t : Script) : (s ++ t).texts = s.texts ++ t.texts :=
  List.filterMap_append

theorem Reads.append (hs : Reads P a s b) (ht : Reads P b t c) : Reads P a (s ++ t) c where
  run texts := by
    rw [toList_render_append, Scan.run_append, hs.run, Option.bind_some, ht.run, texts_append,
      List.append_assoc]
  texts := by
    rw [texts_append, List.forall_mem_append]
    exact ⟨hs.texts, ht.texts⟩

theorem Reads.mono {Q : String → Prop} (h : Reads P a s b) (hPQ : ∀ t, P t → Q t) :
    Reads Q a s b where
  run := h.run
  texts t ht := hPQ t (h.texts t ht)

theorem reads_code {source : String}
    (h : ∀ texts, Scan.run ⟨.code, a, texts⟩ source.toList = some ⟨.code, b, texts⟩) :
    Reads P a (code source) b where
  run texts := by
    have hrender : (code source).render = source := by simp [render, code, Piece.render]
    rw [hrender, h]
    simp [Script.texts, code]
  texts := by simp [Script.texts, code]

theorem reads_text {s : String} (h : P s) : Reads P a [.text s] a where
  run texts := by
    have hrender : render [.text s] = Piece.quote s := by simp [render, Piece.render]
    rw [hrender, Scan.run_quote]
    simp [Script.texts]
  texts := by simpa [Script.texts] using h

end Reads

/-! ## Balanced scripts -/

/-- Whether a script closes the brackets that it opens, and no others. -/
def Balanced (P : String → Prop) (s : Script) : Prop := ∀ awaited, Reads P awaited s awaited

section Balanced

variable {P : String → Prop} {s t : Script} {parts : List Script}

theorem Balanced.append (hs : Balanced P s) (ht : Balanced P t) : Balanced P (s ++ t) :=
  fun awaited => (hs awaited).append (ht awaited)

theorem Balanced.mono {Q : String → Prop} (h : Balanced P s) (hPQ : ∀ t, P t → Q t) :
    Balanced Q s :=
  fun awaited => (h awaited).mono hPQ

theorem balanced_code {source : String}
    (h : ∀ awaited texts, Scan.run ⟨.code, awaited, texts⟩ source.toList
      = some ⟨.code, awaited, texts⟩) : Balanced P (code source) :=
  fun awaited => reads_code (h awaited)

/-- A balanced script in brackets, with code before the opening one. -/
theorem Balanced.enclosed {before after : String} {close : Char} (h : Balanced P s)
    (hbefore : ∀ awaited texts, Scan.run ⟨.code, awaited, texts⟩ before.toList
      = some ⟨.code, close :: awaited, texts⟩)
    (hafter : ∀ awaited texts, Scan.run ⟨.code, close :: awaited, texts⟩ after.toList
      = some ⟨.code, awaited, texts⟩) : Balanced P (code before ++ s ++ code after) :=
  fun awaited => ((reads_code (hbefore awaited)).append (h _)).append (reads_code (hafter awaited))

theorem Balanced.parenthesized (h : Balanced P s) : Balanced P (code "(" ++ s ++ code ")") :=
  h.enclosed (fun _ _ => rfl) fun _ _ => rfl

theorem balanced_joined {separator : String} (hseparator : Balanced P (code separator))
    (h : ∀ s ∈ parts, Balanced P s) : Balanced P (joined separator parts) := by
  induction parts with
  | nil =>
      intro awaited
      exact ⟨fun _ => by simp [joined, render, texts, Scan.run], by simp [joined, texts]⟩
  | cons s parts ih =>
      obtain ⟨hs, hparts⟩ := List.forall_mem_cons.mp h
      cases parts with
      | nil => simpa [joined] using hs
      | cons t rest =>
          have hsplit : joined separator (s :: t :: rest)
              = s ++ code separator ++ joined separator (t :: rest) := by
            simp [joined, code]
          rw [hsplit]
          exact (hs.append hseparator).append (ih hparts)

theorem balanced_coalesce (h : ∀ s ∈ parts, Balanced P s) : Balanced P (coalesce parts) := by
  induction parts with
  | nil => exact balanced_code fun _ _ => rfl
  | cons s parts ih =>
      obtain ⟨hs, hparts⟩ := List.forall_mem_cons.mp h
      cases parts with
      | nil => exact hs
      | cons t rest =>
          have htest : Balanced P (code " != null ? ") := balanced_code fun _ _ => rfl
          have helse : Balanced P (code " : ") := balanced_code fun _ _ => rfl
          have hinner := (((hs.append htest).append hs).append helse).append (ih hparts)
          have hassoc : coalesce (s :: t :: rest) = code "("
              ++ (s ++ code " != null ? " ++ s ++ code " : " ++ coalesce (t :: rest))
              ++ code ")" := by
            simp [coalesce]
          rw [hassoc]
          exact hinner.parenthesized

theorem balanced_columnValue {stored : String} (h : P stored) :
    Balanced P (columnValue stored) := by
  intro awaited
  have hopen : Reads P awaited (code "(doc[") (']' :: ')' :: awaited) := reads_code fun _ => rfl
  have hagain : Reads P (']' :: ')' :: awaited) (code "].size()==0 ? null : doc[")
      (']' :: ')' :: awaited) := reads_code fun _ => rfl
  have hclose : Reads P (']' :: ')' :: awaited) (code "].value)") awaited :=
    reads_code fun _ => rfl
  exact (((hopen.append (reads_text h)).append hagain).append (reads_text h)).append hclose

theorem balanced_number (n : Number) : Balanced P (code n.text) := by
  refine balanced_code fun awaited texts => Scan.run_plain awaited texts fun c hc => ?_
  rcases n.isNumeral_text c hc with hdigit | hmem
  · -- no digit is a quote or a bracket
    have hne (d : Char) (hd : d.isDigit = false) : c ≠ d := by
      rintro rfl
      rw [hdigit] at hd
      cases hd
    simp [closing?, isClosing, hne '\'' rfl, hne '(' rfl, hne ')' rfl, hne '[' rfl, hne ']' rfl,
      hne '\x7b' rfl, hne '\x7d' rfl]
  · have hall : ['-', '+', '.', 'e'].all (fun c =>
        c ≠ '\'' ∧ closing? c = none ∧ isClosing c = false) = true := by decide
    exact of_decide_eq_true (List.all_eq_true.mp hall c hmem)

theorem ofValues_eq (items : List Json) : ofValues items = joined ", " (items.map ofValue) := by
  induction items with
  | nil => rfl
  | cons v items ih =>
      cases items with
      | nil => simp [ofValues, joined]
      | cons w rest =>
          rw [ofValues, ih]
          · simp [joined, code]
          · exact List.cons_ne_nil w rest

/-- **A value is read with its own literals.** -/
theorem balanced_ofValue (v : Json) : Balanced v.Literal (ofValue v) := by
  induction v with
  | null => exact balanced_code fun _ _ => rfl
  | bool b => cases b <;> exact balanced_code fun _ _ => rfl
  | num n => exact balanced_number n
  | str s => exact fun _ => reads_text (.text s)
  | obj fields => exact fun _ => reads_text (.object fields)
  | arr items ih =>
      have hitems : ∀ s ∈ items.map ofValue, Balanced (Json.arr items).Literal s := by
        intro s hs
        obtain ⟨v, hv, rfl⟩ := List.mem_map.mp hs
        exact (ih v hv).mono fun _ ht => .element hv ht
      have hcomma : Balanced (Json.arr items).Literal (code ", ") := balanced_code fun _ _ => rfl
      have hjoined := balanced_joined hcomma hitems
      rw [ofValue, ofValues_eq]
      exact hjoined.enclosed (fun _ _ => rfl) fun _ _ => rfl

end Balanced

end Script

end Tabula
