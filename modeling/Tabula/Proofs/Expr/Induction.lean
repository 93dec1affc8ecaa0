import Tabula.Expr.Basic

/-!
# Induction over expressions

Expressions hold lists of expressions. What holds of an expression whenever it holds of its terms
holds of every expression (`Expr.induct`), and `induction` on an expression goes by this principle.
-/

set_option autoImplicit false

namespace Tabula.Expr

/-- Induction over expressions, with the hypothesis for each member of a list of terms. -/
@[elab_as_elim, induction_eliminator]
theorem induct {motive : Expr → Prop}
    (literal : ∀ value, motive (.literal value))
    (var : ∀ name, motive (.var name))
    (leaves : ∀ path, motive (.leaves path))
    (tuple : ∀ terms, (∀ t ∈ terms, motive t) → motive (.tuple terms))
    (compare : ∀ op lhs rhs, motive lhs → motive rhs → motive (.compare op lhs rhs))
    (and : ∀ terms, (∀ t ∈ terms, motive t) → motive (.and terms))
    (or : ∀ terms, (∀ t ∈ terms, motive t) → motive (.or terms))
    (not : ∀ term, motive term → motive (.not term))
    (present : ∀ term, motive term → motive (.present term))
    (missing : ∀ term, motive term → motive (.missing term))
    (startsWith : ∀ term start, motive term → motive (.startsWith term start))
    (oneOf : ∀ term values, motive term → motive (.oneOf term values))
    (arith : ∀ op terms, (∀ t ∈ terms, motive t) → motive (.arith op terms))
    (coalesce : ∀ terms, (∀ t ∈ terms, motive t) → motive (.coalesce terms))
    (e : Expr) : motive e :=
  Expr.rec (motive_2 := fun terms => ∀ t ∈ terms, motive t) literal var leaves tuple compare and or
    not present missing startsWith oneOf arith coalesce
    (fun _ hmem => absurd hmem List.not_mem_nil)
    (fun _ _ hhead htail => List.forall_mem_cons.mpr ⟨hhead, htail⟩) e

end Tabula.Expr
