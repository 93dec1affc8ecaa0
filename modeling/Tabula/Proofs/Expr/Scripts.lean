import Tabula.Expr.Script
import Tabula.Proofs.Expr.Redexes
import Tabula.Proofs.Results
import Tabula.Proofs.Search.Reading

/-!
# Scripts of expressions

A script holds texts of the query and names of the catalog, both of which can be anything. Whatever
they are, the source of a script is read from beginning to end as code with closed brackets and
closed text literals, and every literal is a stored name of a column, a text of the expression, or
one of its objects written as JSON (`scan_script`).
-/

set_option autoImplicit false

namespace Tabula

/-! ## Columns of references -/

theorem exists_of_mem_firstHit {α β : Type} {f : α → List β} {as : List α} {b : β}
    (h : b ∈ firstHit f as) : ∃ a ∈ as, b ∈ f a := by
  induction as with
  | nil => cases h
  | cons a as ih =>
      rw [firstHit] at h
      split at h
      next =>
          obtain ⟨a', ha', hb⟩ := ih h
          exact ⟨a', List.mem_cons_of_mem _ ha', hb⟩
      next => exact ⟨a, List.mem_cons_self, h⟩

namespace Catalog

variable {catalog : Catalog} {name : String} {c : Column}

theorem mem_columns_of_mem_leaves (h : c ∈ catalog.leaves name) : c ∈ catalog.columns := by
  obtain ⟨field, -, hc⟩ := exists_of_mem_firstHit h
  exact (List.mem_filter.mp hc).1

theorem mem_columns_of_mem_scalars (h : c ∈ catalog.scalars name) : c ∈ catalog.columns := by
  obtain ⟨field, -, hc⟩ := exists_of_mem_firstHit h
  exact (List.mem_filter.mp hc).1

end Catalog

namespace Expr

open Script (code Balanced balanced_code Reads reads_code)

/-! ## What scripts may quote -/

/-- Whether a text is a stored name of a column, a text of an expression, or an object of it written
as JSON. -/
def Quotable (catalog : Catalog) (e : Expr) (t : String) : Prop :=
  (∃ c ∈ catalog.columns, c.stored = t)
  ∨ (∃ v, Occurs (.literal v) e ∧ v.Literal t)
  ∨ (∃ term, Occurs (.startsWith term t) e)
  ∨ ∃ term values, Occurs (.oneOf term values) e ∧ ∃ v ∈ values, v.Literal t

variable {catalog : Catalog} {e term : Expr}

/-- What may be quoted for a term may be quoted for the whole. -/
theorem Quotable.of_child (h : term ∈ e.children) {t : String} (ht : Quotable catalog term t) :
    Quotable catalog e t := by
  rcases ht with hcolumn | ⟨v, hv, ht⟩ | ⟨inner, hinner⟩ | ⟨inner, values, hinner, ht⟩
  · exact Or.inl hcolumn
  · exact Or.inr (Or.inl ⟨v, .within h hv, ht⟩)
  · exact Or.inr (Or.inr (Or.inl ⟨inner, .within h hinner⟩))
  · exact Or.inr (Or.inr (Or.inr ⟨inner, values, .within h hinner, ht⟩))

theorem balanced_of_child {s : Script} (h : term ∈ e.children)
    (hs : Balanced (Quotable catalog term) s) : Balanced (Quotable catalog e) s :=
  hs.mono fun _ ht => ht.of_child h

/-! ## Scripts are balanced -/

/-- The script of a field names columns of the catalog. -/
theorem balanced_fieldScript {name : String} {s : Script} (h : fieldScript catalog name = .ok s) :
    Balanced (Quotable catalog e) s := by
  -- whichever columns are named, they are of the catalog
  have hquoted {columns : List Column} (hcolumns : ∀ c ∈ columns, c ∈ catalog.columns) :
      Balanced (Quotable catalog e)
        (Script.coalesce (columns.map fun c => Script.columnValue c.stored)) := by
    refine Script.balanced_coalesce fun s hs => ?_
    obtain ⟨c, hc, rfl⟩ := List.mem_map.mp hs
    exact Script.balanced_columnValue (Or.inl ⟨c, hcolumns c hc, rfl⟩)
  unfold fieldScript at h
  dsimp only at h
  split at h
  next =>
      split at h
      next => cases h
      next =>
          cases h
          exact hquoted fun c hc => Catalog.mem_columns_of_mem_leaves hc
  next =>
      split at h
      next => cases h
      next =>
          cases h
          exact hquoted fun c hc => Catalog.mem_columns_of_mem_scalars hc

variable {P : String → Prop}

theorem balanced_compareScript (op : CompareOp) {l r : Script} (hl : Balanced P l)
    (hr : Balanced P r) : Balanced P (compareScript op l r) := by
  have hsymbol : Balanced P (code (" " ++ op.symbol ++ " ")) := by
    cases op <;> exact balanced_code fun _ _ => rfl
  have htest := (hl.append hsymbol).append hr
  have hpresent : Balanced P (code " != null && ") := balanced_code fun _ _ => rfl
  -- an order is only asked of values that are there
  have hguarded : Balanced P (code "(" ++ l ++ code " != null && " ++ r ++ code " != null && "
      ++ (l ++ code (" " ++ op.symbol ++ " ") ++ r) ++ code ")") := by
    intro awaited
    have hopen : Reads P awaited (code "(") (')' :: awaited) := reads_code fun _ => rfl
    have hclose : Reads P (')' :: awaited) (code ")") awaited := reads_code fun _ => rfl
    have hpresence := ((hopen.append (hl _)).append (hpresent _)).append (hr _)
    exact ((hpresence.append (hpresent _)).append (htest _)).append hclose
  cases op with
  | eq => exact htest.parenthesized
  | ne => exact htest.parenthesized
  | _ => exact hguarded

theorem balanced_joinedConditions {separator neutral : String} {parts : List Script}
    (hseparator : Balanced P (code separator)) (hneutral : Balanced P (code neutral))
    (h : ∀ s ∈ parts, Balanced P s) : Balanced P (joinedConditions separator neutral parts) := by
  unfold joinedConditions
  split
  next => exact hneutral
  next => exact (Script.balanced_joined hseparator h).parenthesized

theorem exists_of_mem_scripts {ts : List Expr} {parts : List Script}
    (h : scripts catalog ts = .ok parts) : ∀ s ∈ parts, ∃ t ∈ ts, t.script catalog = .ok s := by
  induction ts generalizing parts with
  | nil =>
      cases h
      simp
  | cons t ts ih =>
      rw [scripts] at h
      obtain ⟨s, hs, h⟩ := Results.bind_eq_ok.mp h
      obtain ⟨more, hmore, h⟩ := Results.bind_eq_ok.mp h
      cases h
      rw [List.forall_mem_cons]
      refine ⟨⟨t, List.mem_cons_self, hs⟩, fun s' hs' => ?_⟩
      obtain ⟨t', ht', hscript⟩ := ih hmore s' hs'
      exact ⟨t', List.mem_cons_of_mem _ ht', hscript⟩

theorem balanced_scripts {ts : List Expr} {parts : List Script}
    (h : scripts catalog ts = .ok parts)
    (ih : ∀ t ∈ ts, ∀ {s : Script}, t.script catalog = .ok s → Balanced (Quotable catalog t) s)
    (hchildren : ∀ t ∈ ts, t ∈ e.children) : ∀ s ∈ parts, Balanced (Quotable catalog e) s := by
  intro s hs
  obtain ⟨t, ht, hscript⟩ := exists_of_mem_scripts h s hs
  exact balanced_of_child (hchildren t ht) (ih t ht hscript)

/-- **The script of an expression is balanced**, and quotes what it may. -/
theorem balanced_script {s : Script} (h : e.script catalog = .ok s) :
    Balanced (Quotable catalog e) s := by
  induction e generalizing s with
  | literal v =>
      cases h
      exact (Script.balanced_ofValue v).mono fun t ht => Or.inr (Or.inl ⟨v, .whole, ht⟩)
  | var name => exact balanced_fieldScript h
  | leaves path => cases h
  | tuple ts ih =>
      obtain ⟨parts, hparts, h⟩ := Results.bind_eq_ok.mp h
      cases h
      have hcomma : Balanced (Quotable catalog (.tuple ts)) (code ", ") :=
        balanced_code fun _ _ => rfl
      have hjoined := Script.balanced_joined hcomma (balanced_scripts hparts ih fun t ht => ht)
      exact hjoined.enclosed (fun _ _ => rfl) fun _ _ => rfl
  | compare op a b iha ihb =>
      obtain ⟨l, hl, h⟩ := Results.bind_eq_ok.mp h
      obtain ⟨r, hr, h⟩ := Results.bind_eq_ok.mp h
      cases h
      refine balanced_compareScript op ?_ ?_
      · exact balanced_of_child (by simp [children]) (iha hl)
      · exact balanced_of_child (by simp [children]) (ihb hr)
  | and ts ih =>
      obtain ⟨parts, hparts, h⟩ := Results.bind_eq_ok.mp h
      cases h
      exact balanced_joinedConditions (balanced_code fun _ _ => rfl) (balanced_code fun _ _ => rfl)
        (balanced_scripts hparts ih fun t ht => ht)
  | or ts ih =>
      obtain ⟨parts, hparts, h⟩ := Results.bind_eq_ok.mp h
      cases h
      exact balanced_joinedConditions (balanced_code fun _ _ => rfl) (balanced_code fun _ _ => rfl)
        (balanced_scripts hparts ih fun t ht => ht)
  | not t ih =>
      obtain ⟨s, hs, h⟩ := Results.bind_eq_ok.mp h
      cases h
      have hterm := balanced_of_child (e := .not t) List.mem_cons_self (ih hs)
      exact hterm.enclosed (fun _ _ => rfl) fun _ _ => rfl
  | present t ih =>
      obtain ⟨s, hs, h⟩ := Results.bind_eq_ok.mp h
      cases h
      have hterm := balanced_of_child (e := .present t) List.mem_cons_self (ih hs)
      exact hterm.enclosed (fun _ _ => rfl) fun _ _ => rfl
  | missing t ih =>
      obtain ⟨s, hs, h⟩ := Results.bind_eq_ok.mp h
      cases h
      have hterm := balanced_of_child (e := .missing t) List.mem_cons_self (ih hs)
      exact hterm.enclosed (fun _ _ => rfl) fun _ _ => rfl
  | startsWith t start ih =>
      obtain ⟨s, hs, h⟩ := Results.bind_eq_ok.mp h
      cases h
      have hterm := balanced_of_child (e := .startsWith t start) List.mem_cons_self (ih hs)
      have hstart : Quotable catalog (.startsWith t start) start :=
        Or.inr (Or.inr (Or.inl ⟨t, .whole⟩))
      have hpresent : Balanced (Quotable catalog (.startsWith t start)) (code " != null && ") :=
        balanced_code fun _ _ => rfl
      intro awaited
      -- the text is read with two brackets open
      have hopen : Reads (Quotable catalog (.startsWith t start)) awaited (code "(")
          (')' :: awaited) := reads_code fun _ => rfl
      have hcall : Reads (Quotable catalog (.startsWith t start)) (')' :: awaited)
          (code ".toString().startsWith(") (')' :: ')' :: awaited) := reads_code fun _ => rfl
      have hclose : Reads (Quotable catalog (.startsWith t start)) (')' :: ')' :: awaited)
          (code "))") awaited := reads_code fun _ => rfl
      have htest := ((hopen.append (hterm _)).append (hpresent _)).append (hterm _)
      exact htest.append ((hcall.append (Script.reads_text hstart)).append hclose)
  | oneOf t values ih =>
      obtain ⟨s, hs, h⟩ := Results.bind_eq_ok.mp h
      cases h
      have hterm := balanced_of_child (e := .oneOf t values) List.mem_cons_self (ih hs)
      have hvalues : Balanced (Quotable catalog (.oneOf t values)) (Script.ofList values) := by
        refine (Script.balanced_ofValue (.arr values)).mono fun text ht => ?_
        cases ht with
        | element hv ht => exact Or.inr (Or.inr (Or.inr ⟨t, values, .whole, _, hv, ht⟩))
      intro awaited
      have hcall : Reads (Quotable catalog (.oneOf t values)) awaited (code ".contains(")
          (')' :: awaited) := reads_code fun _ => rfl
      have hclose : Reads (Quotable catalog (.oneOf t values)) (')' :: awaited) (code ")")
          awaited := reads_code fun _ => rfl
      exact (((hvalues _).append hcall).append (hterm _)).append hclose
  | arith op ts ih =>
      obtain ⟨parts, hparts, h⟩ := Results.bind_eq_ok.mp h
      cases h
      have hsymbol :
          Balanced (Quotable catalog (.arith op ts)) (code (" " ++ op.symbol ++ " ")) := by
        cases op <;> exact balanced_code fun _ _ => rfl
      have hjoined := Script.balanced_joined hsymbol (balanced_scripts hparts ih fun t ht => ht)
      exact hjoined.parenthesized
  | coalesce ts ih =>
      obtain ⟨parts, hparts, h⟩ := Results.bind_eq_ok.mp h
      cases h
      exact Script.balanced_coalesce (balanced_scripts hparts ih fun t ht => ht)

/-- **Whatever a script quotes stays quoted.** The source of a script is read up to its end, where
no text literal is open and no bracket is awaited, and the literals that are found are stored names
of columns and texts of the expression. -/
theorem scan_script {s : Script} (h : e.script catalog = .ok s) :
    Script.Scan.ofSource s.render = some ⟨.code, [], s.texts⟩
      ∧ ∀ t ∈ s.texts, Quotable catalog e t := by
  have hread := balanced_script h []
  refine ⟨?_, hread.texts⟩
  rw [Script.Scan.ofSource, hread.run, List.nil_append]

/-! ## Names with quotes -/

def quotedCatalog : Catalog := .overRoot "t"
  [{ name := "a", stored := "it's \\'", mapping := "keyword", type := .string,
     nestedPath := ["."] }]

/-- A condition on the field, with texts that would end a literal. -/
def quotedCondition : Expr :=
  .and [.startsWith (.var "a") "') || (true",
    .not (.oneOf (.var "a") [.str "\\", .obj [("k", .str "'")]])]

theorem scan_script_quoted : ∃ s, quotedCondition.script quotedCatalog = .ok s
    ∧ s.texts = ["it's \\'", "it's \\'", "it's \\'", "it's \\'", "') || (true", "\\",
      "\x7b\"k\":\"'\"\x7d", "it's \\'", "it's \\'"]
    ∧ Script.Scan.ofSource s.render = some ⟨.code, [], s.texts⟩
    ∧ ∀ t ∈ s.texts, Quotable quotedCatalog quotedCondition t := by
  have hscript : quotedCondition.script quotedCatalog = .ok _ := rfl
  exact ⟨_, hscript, by decide, scan_script hscript⟩

end Expr

end Tabula
