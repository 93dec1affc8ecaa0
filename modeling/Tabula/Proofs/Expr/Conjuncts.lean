import Tabula.Proofs.Expr.Redexes
import Tabula.Proofs.Text.Sets

/-!
# The fields and the conjuncts of an expression

The fields of an expression are the references that occur in it, however deep (`Mentions`), and its
conjuncts are what is left of it when its conjunctions are taken apart (`Conjuncts`). Both are told
here without the functions that collect them, which find them all (`mem_vars_iff`,
`conjuncts_iff`). A folded expression is taken apart in one step, for a folded conjunction holds no
inner one (`Folded.conjuncts_and`).
-/

set_option autoImplicit false

namespace Tabula.Expr

/-! ## Fields -/

/-- What holds of an expression whenever it holds of the terms of its operator holds of any. -/
theorem induct_children {P : Expr → Prop} (h : ∀ e, (∀ t ∈ e.children, P t) → P e) (e : Expr) :
    P e := by
  induction e with
  | literal v => exact h _ (by simp [children])
  | var name => exact h _ (by simp [children])
  | leaves path => exact h _ (by simp [children])
  | compare op a b iha ihb => exact h _ (by simp [children, iha, ihb])
  | not t ih => exact h _ (List.forall_mem_singleton.mpr ih)
  | present t ih => exact h _ (List.forall_mem_singleton.mpr ih)
  | missing t ih => exact h _ (List.forall_mem_singleton.mpr ih)
  | startsWith t start ih => exact h _ (List.forall_mem_singleton.mpr ih)
  | oneOf t values ih => exact h _ (List.forall_mem_singleton.mpr ih)
  | tuple ts ih => exact h _ ih
  | and ts ih => exact h _ ih
  | or ts ih => exact h _ ih
  | arith op ts ih => exact h _ ih
  | coalesce ts ih => exact h _ ih

/-- Whether a reference to a field, or to all leaves at or below it, occurs in an expression. -/
def Mentions (name : String) (e : Expr) : Prop :=
  Occurs (.var name) e ∨ Occurs (.leaves name) e

theorem occurs_iff {part e : Expr} :
    Occurs part e ↔ part = e ∨ ∃ t ∈ e.children, Occurs part t := by
  constructor
  · intro h
    cases h with
    | whole => exact Or.inl rfl
    | within ht h => exact Or.inr ⟨_, ht, h⟩
  · rintro (rfl | ⟨t, ht, h⟩)
    · exact .whole
    · exact .within ht h

theorem mentions_iff {name : String} {e : Expr} :
    Mentions name e ↔ e = .var name ∨ e = .leaves name ∨ ∃ t ∈ e.children, Mentions name t := by
  unfold Mentions
  rw [occurs_iff, occurs_iff]
  constructor
  · rintro ((h | ⟨t, ht, h⟩) | (h | ⟨t, ht, h⟩))
    · exact Or.inl h.symm
    · exact Or.inr (Or.inr ⟨t, ht, Or.inl h⟩)
    · exact Or.inr (Or.inl h.symm)
    · exact Or.inr (Or.inr ⟨t, ht, Or.inr h⟩)
  · rintro (h | h | ⟨t, ht, h | h⟩)
    · exact Or.inl (Or.inl h.symm)
    · exact Or.inr (Or.inl h.symm)
    · exact Or.inl (Or.inr ⟨t, ht, h⟩)
    · exact Or.inr (Or.inr ⟨t, ht, h⟩)

theorem referencesAll_eq (ts : List Expr) : referencesAll ts = ts.flatMap references := by
  induction ts with
  | nil => rfl
  | cons t ts ih => rw [referencesAll, ih, List.flatMap_cons]

/-- A field is referred to by an expression itself or by a term of its operator. -/
theorem mem_references {name : String} {e : Expr} : name ∈ e.references
    ↔ e = .var name ∨ e = .leaves name ∨ ∃ t ∈ e.children, name ∈ t.references := by
  cases e with
  | literal v => simp [references, children]
  | var other => simp [references, children, eq_comm]
  | leaves path => simp [references, children, eq_comm]
  | compare op a b => simp [references, children]
  | not t => simp [references, children]
  | present t => simp [references, children]
  | missing t => simp [references, children]
  | startsWith t start => simp [references, children]
  | oneOf t values => simp [references, children]
  | tuple ts => simp [references, children, referencesAll_eq]
  | and ts => simp [references, children, referencesAll_eq]
  | or ts => simp [references, children, referencesAll_eq]
  | arith op ts => simp [references, children, referencesAll_eq]
  | coalesce ts => simp [references, children, referencesAll_eq]

/-- **The fields of an expression are those that it mentions.** -/
theorem mem_vars_iff {name : String} {e : Expr} : name ∈ e.vars ↔ e.Mentions name := by
  rw [vars, Text.mem_setOf]
  induction e using induct_children with
  | h e ih =>
      rw [mem_references, mentions_iff]
      refine or_congr_right (or_congr_right ?_)
      exact exists_congr fun t => and_congr_right fun ht => ih t ht

/-! ## Conjuncts -/

/-- Whether taking apart an expression, and what it is made of, gives some conjuncts: those of a
conjunction are the ones of its terms in turn, true has none, and nothing else is taken apart. -/
inductive Conjuncts : Expr → List Expr → Prop
  | nothing : Conjuncts truth []
  | nil : Conjuncts (.and []) []
  | cons {t : Expr} {ts cs ds : List Expr} :
      Conjuncts t cs → Conjuncts (.and ts) ds → Conjuncts (.and (t :: ts)) (cs ++ ds)
  | single {e : Expr} : e ≠ truth → (∀ ts, e ≠ .and ts) → Conjuncts e [e]

theorem conjunctsAll_eq (ts : List Expr) : conjunctsAll ts = ts.flatMap conjuncts := by
  induction ts with
  | nil => rfl
  | cons t ts ih => rw [conjunctsAll, ih, List.flatMap_cons]

theorem conjuncts_eq_single {e : Expr} (htruth : e ≠ truth) (hand : ∀ ts, e ≠ .and ts) :
    e.conjuncts = [e] := by
  have hopen : ¬ e.isTrue = true := by
    intro h
    unfold isTrue at h
    split at h
    next => exact htruth rfl
    next => cases h
  cases e with
  | literal v => exact if_neg hopen
  | and ts => exact absurd rfl (hand ts)
  | _ => rfl

theorem conjuncts_conjuncts (e : Expr) : Conjuncts e e.conjuncts := by
  induction e with
  | literal v =>
      by_cases htruth : Expr.literal v = truth
      · rw [htruth]
        exact .nothing
      · rw [conjuncts_eq_single htruth (by simp)]
        exact .single htruth (by simp)
  | and ts ih =>
      rw [conjuncts, conjunctsAll_eq]
      induction ts with
      | nil => exact .nil
      | cons t ts ihs =>
          obtain ⟨ht, hts⟩ := List.forall_mem_cons.mp ih
          rw [List.flatMap_cons]
          exact .cons ht (ihs hts)
  | _ =>
      rw [conjuncts_eq_single (by simp [truth]) (by simp)]
      exact .single (by simp [truth]) (by simp)

/-- **Taking apart an expression gives the conjuncts that are collected**, and no others. -/
theorem conjuncts_iff {e : Expr} {cs : List Expr} : e.Conjuncts cs ↔ cs = e.conjuncts := by
  constructor
  · intro h
    induction h with
    | nothing => rfl
    | nil => rfl
    | cons _ _ ihcs ihds => rw [ihcs, ihds, conjuncts, conjuncts, conjunctsAll]
    | single htruth hand => exact (conjuncts_eq_single htruth hand).symm
  · rintro rfl
    exact conjuncts_conjuncts e

/-- **The conjuncts of a folded conjunction are its terms.** -/
theorem Folded.conjuncts_and {ts : List Expr} (h : Folded (.and ts)) : Conjuncts (.and ts) ts := by
  have hwhole : ∀ t ∈ ts, t.conjuncts = [t] := by
    intro t ht
    refine conjuncts_eq_single ?_ ?_
    · rintro rfl
      exact h.not_redex (.andAnswer ht (.bool true))
    · rintro us rfl
      exact h.not_redex (.andAnd ht)
  rw [conjuncts_iff, conjuncts, conjunctsAll_eq, List.flatMap_congr hwhole, List.flatMap_singleton']

end Tabula.Expr
