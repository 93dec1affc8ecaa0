import Tabula.Proofs.Expr.Normal

/-!
# What folding leaves nothing of

Some expressions can be computed or written more shortly as they stand (`Redex`): a comparison of
two literals, a negated negation, a conjunction with a decided or an inner one among its operands.
A rewriting step may bring out another such expression around it. What folding gives nevertheless
holds none at any depth, and folding it again changes nothing (`fold_fold_and_not_redex`).
-/

set_option autoImplicit false

namespace Tabula.Expr

/-! ## Parts of an expression -/

/-- The terms that an operator is applied to. -/
def children : Expr → List Expr
  | literal _ | var _ | leaves _ => []
  | compare _ a b => [a, b]
  | not t | present t | missing t | startsWith t _ | oneOf t _ => [t]
  | tuple ts | and ts | or ts | coalesce ts | arith _ ts => ts

/-- Whether an expression stands in another one, at any depth. -/
inductive Occurs (part : Expr) : Expr → Prop
  | whole : Occurs part part
  | within {t e : Expr} : t ∈ e.children → Occurs part t → Occurs part e

/-- What holds of an expression, and of its terms when it holds of one, holds at any depth. -/
theorem Occurs.of_children {P : Expr → Prop} (hP : ∀ e, P e → ∀ t ∈ e.children, P t)
    {part e : Expr} (h : Occurs part e) (he : P e) : P part := by
  induction h with
  | whole => exact he
  | within ht _ ih => exact ih (hP _ he _ ht)

theorem Folded.children {e : Expr} (h : Folded e) : ∀ t ∈ e.children, Folded t := by
  cases h with
  | literal v => simp [Expr.children]
  | var name => simp [Expr.children]
  | leaves path => simp [Expr.children]
  | compare ha hb _ => simp [Expr.children, ha, hb]
  | not ht _ => exact List.forall_mem_singleton.mpr ht
  | present ht _ => exact List.forall_mem_singleton.mpr ht
  | missing ht _ => exact List.forall_mem_singleton.mpr ht
  | startsWith ht _ => exact List.forall_mem_singleton.mpr ht
  | oneOf ht _ _ => exact List.forall_mem_singleton.mpr ht
  | tuple hts => exact hts
  | and hts _ _ => exact hts
  | or hts _ _ => exact hts
  | arith hts _ => exact hts
  | coalesce hts _ _ => exact hts

/-! ## Redexes -/

/-- Whether a term is an answer or null. -/
inductive Answer : Expr → Prop
  | bool (b : Bool) : Answer (.literal (.bool b))
  | null : Answer (.literal .null)

/-- Whether an expression can be rewritten as it stands, whatever its operands hold. -/
inductive Redex : Expr → Prop
  | andAnswer {ts : List Expr} {t : Expr} : t ∈ ts → Answer t → Redex (.and ts)
  | andAnd {ts us : List Expr} : .and us ∈ ts → Redex (.and ts)
  | andShort {ts : List Expr} : ts.length < 2 → Redex (.and ts)
  | orAnswer {ts : List Expr} {t : Expr} : t ∈ ts → Answer t → Redex (.or ts)
  | orOr {ts us : List Expr} : .or us ∈ ts → Redex (.or ts)
  | orShort {ts : List Expr} : ts.length < 2 → Redex (.or ts)
  | notAnswer {t : Expr} : Answer t → Redex (.not t)
  | notNot {t : Expr} : Redex (.not (.not t))
  | compare {op : CompareOp} {x y : Json} : Redex (.compare op (.literal x) (.literal y))
  | arith {op : ArithOp} {ts : List Expr} : ts ≠ [] →
      (∀ t ∈ ts, ∃ n, t = .literal (.num n)) → Redex (.arith op ts)

theorem Connective.Keeps.not_answer {c : Connective} {t : Expr} (h : c.Keeps t) : ¬ Answer t := by
  intro ht
  cases ht with
  | bool b => exact h.ne_bool b rfl
  | null => exact h.ne_null rfl

theorem exists_mapM_asNumber? {ts : List Expr} (h : ∀ t ∈ ts, ∃ n, t = .literal (.num n)) :
    ∃ xs, ts.mapM asNumber? = some xs ∧ xs.length = ts.length := by
  induction ts with
  | nil => exact ⟨[], rfl, rfl⟩
  | cons t ts ih =>
      obtain ⟨⟨n, rfl⟩, hts⟩ := List.forall_mem_cons.mp h
      obtain ⟨xs, hxs, hlength⟩ := ih hts
      refine ⟨n.toFloat :: xs, ?_, congrArg (· + 1) hlength⟩
      rw [List.mapM_cons, hxs]
      rfl

/-- **A folded expression is no redex.** -/
theorem Folded.not_redex {e : Expr} (h : Folded e) : ¬ Redex e := by
  intro hredex
  cases hredex with
  | andAnswer ht hanswer =>
      cases h with
      | and _ _ hkeeps => exact (hkeeps _ ht).not_answer hanswer
  | @andAnd ts us ht =>
      cases h with
      | and _ _ hkeeps => exact (hkeeps _ ht).ne_of us rfl
  | andShort hshort =>
      cases h with
      | and _ hlength _ => omega
  | orAnswer ht hanswer =>
      cases h with
      | or _ _ hkeeps => exact (hkeeps _ ht).not_answer hanswer
  | @orOr ts us ht =>
      cases h with
      | or _ _ hkeeps => exact (hkeeps _ ht).ne_of us rfl
  | orShort hshort =>
      cases h with
      | or _ hlength _ => omega
  | notAnswer hanswer =>
      cases h with
      | not _ hopen => cases hanswer <;> cases hopen
  | notNot =>
      cases h with
      | not _ hopen =>
          -- the step gives the inner term, which is smaller than what it would have to be
          have hsize := congrArg sizeOf hopen
          simp [foldNot] at hsize
          omega
  | compare =>
      cases h with
      | compare _ _ hopen => cases hopen
  | @arith op ts hne hnumbers =>
      cases h with
      | arith _ hopen =>
          obtain ⟨xs, hxs, hlength⟩ := exists_mapM_asNumber? hnumbers
          have hpos := List.length_pos_iff.mpr hne
          unfold foldArith at hopen
          rw [hxs] at hopen
          cases xs with
          | nil => simp at hlength; omega
          | cons x xs => cases hopen

/-- **Folding is idempotent and complete**: folding again changes nothing, and at no depth is
anything left to rewrite. -/
theorem fold_fold_and_not_redex (e : Expr) :
    e.fold.fold = e.fold ∧ ∀ part, Occurs part e.fold → ¬ Redex part := by
  have hfolded : Folded e.fold := folded_fold e
  refine ⟨hfolded.fold_eq, fun part hpart => ?_⟩
  have hall : Folded part := hpart.of_children (fun _ h => h.children) hfolded
  exact hall.not_redex

end Tabula.Expr
