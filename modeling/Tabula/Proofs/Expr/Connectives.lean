import Tabula.Expr.Fold

/-!
# Connectives

Conjunctions and disjunctions fold alike (`Connective.fold`): one term may decide the answer, what
cannot change the answer is left out, and an inner expression of the same connective gives its
terms. What is said here is said of both, by the answer that one term decides
(`Connective.decided`).
-/

set_option autoImplicit false

namespace Tabula.Expr

inductive Connective where
  | conjunction
  | disjunction

namespace Connective

def of : Connective → List Expr → Expr
  | conjunction => .and
  | disjunction => .or

def decided : Connective → Bool
  | conjunction => false
  | disjunction => true

def ends : Connective → Expr → Bool
  | conjunction => fun t => t.isFalse || t.isNull
  | disjunction => isTrue

def terms : Connective → Expr → List Expr
  | conjunction => andTerms
  | disjunction => orTerms

def joined (c : Connective) : List Expr → Expr
  | [] => .literal (.bool !c.decided)
  | [t] => t
  | kept => c.of kept

def fold (c : Connective) (ts : List Expr) : Expr :=
  if ts.any c.ends then .literal (.bool c.decided) else c.joined (ts.flatMap c.terms)

theorem foldAnd_eq (ts : List Expr) : foldAnd ts = conjunction.fold ts := by
  unfold foldAnd fold joined
  rfl

theorem foldOr_eq (ts : List Expr) : foldOr ts = disjunction.fold ts := by
  unfold foldOr fold joined
  rfl

theorem fold_of (c : Connective) (ts : List Expr) : (c.of ts).fold = c.fold (foldAll ts) := by
  cases c with
  | conjunction =>
      rw [of, Expr.fold]
      exact foldAnd_eq _
  | disjunction =>
      rw [of, Expr.fold]
      exact foldOr_eq _

variable (c : Connective)

theorem fold_of_ends {ts : List Expr} (h : ts.any c.ends = true) :
    c.fold ts = .literal (.bool c.decided) := if_pos h

theorem fold_of_not_ends {ts : List Expr} (h : ts.any c.ends = false) :
    c.fold ts = c.joined (ts.flatMap c.terms) := if_neg (by rw [h]; exact Bool.false_ne_true)

theorem joined_of_length {ts : List Expr} (h : 2 ≤ ts.length) : c.joined ts = c.of ts := by
  match ts with
  | [] => simp at h
  | [t] => simp at h
  | t :: u :: rest => rfl

/-- The terms that decide the answer: the answer itself, and null in a conjunction. -/
theorem eq_of_ends {t : Expr} (h : c.ends t = true) :
    t = .literal (.bool c.decided) ∨ t = .null := by
  cases t with
  | literal v =>
      cases v with
      | null => exact Or.inr rfl
      | bool b =>
          refine Or.inl ?_
          cases c <;> cases b <;> first | rfl | cases h
      | _ => cases c <;> cases h
  | _ => cases c <;> cases h

@[simp]
theorem ends_of (ts : List Expr) : c.ends (c.of ts) = false := by cases c <;> rfl

@[simp]
theorem terms_of (ts : List Expr) : c.terms (c.of ts) = ts := by cases c <;> rfl

@[simp]
theorem ends_neutral : c.ends (.literal (.bool !c.decided)) = false := by cases c <;> rfl

@[simp]
theorem terms_neutral : c.terms (.literal (.bool !c.decided)) = [] := by cases c <;> rfl

theorem terms_eq_nil {t : Expr} (h : (∃ b, t = .literal (.bool b)) ∨ t = .null)
    (hends : c.ends t = false) : c.terms t = [] := by
  rcases h with ⟨b, rfl⟩ | rfl
  · cases c <;> cases b <;> first | rfl | cases hends
  · cases c <;> first | rfl | cases hends

/-- A term contributes its own terms, itself, or nothing when it cannot change the answer. -/
theorem terms_cases (t : Expr) : (∃ ts, t = c.of ts) ∨ c.terms t = [t]
    ∨ c.terms t = [] ∧ (t = .literal (.bool !c.decided) ∨ t = .null) := by
  cases c with
  | conjunction =>
      cases t with
      | and ts => exact Or.inl ⟨ts, rfl⟩
      | literal v =>
          refine Or.inr ?_
          cases v with
          | bool b => cases b <;> simp [terms, andTerms, isTrue, decided]
          | _ => exact Or.inl rfl
      | _ => exact Or.inr (Or.inl rfl)
  | disjunction =>
      cases t with
      | or ts => exact Or.inl ⟨ts, rfl⟩
      | literal v =>
          refine Or.inr ?_
          cases v with
          | bool b => cases b <;> simp [terms, orTerms, isFalse, isNull, decided]
          | null => exact Or.inr ⟨rfl, Or.inr rfl⟩
          | _ => exact Or.inl rfl
      | _ => exact Or.inr (Or.inl rfl)

end Connective

/-! ## Negations -/

/-- A folded term is negated by putting a negation before it, but for three kinds of terms. -/
theorem foldNot_cases (t : Expr) :
    (∃ b, t = .literal (.bool b)) ∨ t = .null ∨ (∃ u, t = .not u) ∨ foldNot t = .not t := by
  cases t with
  | literal v =>
      cases v with
      | bool b => exact Or.inl ⟨b, rfl⟩
      | null => exact Or.inr (Or.inl rfl)
      | _ => exact Or.inr (Or.inr (Or.inr rfl))
  | not u => exact Or.inr (Or.inr (Or.inl ⟨u, rfl⟩))
  | _ => exact Or.inr (Or.inr (Or.inr rfl))

end Tabula.Expr
