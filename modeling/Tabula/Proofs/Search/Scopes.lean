import Tabula.Proofs.Path.Order
import Tabula.Search.Aggregation

/-!
# Scopes of aggregations

A request is read from the root: a step into nested documents moves the scope to their path, a
step out of them to the path it names or to the root, and every other aggregation leaves the
scope as it is (`AggKind.scope`). `Aggs.Legal` says that a tree makes no step that the backend
refuses. `Aggs.leaves` lists what a tree computes at its ends, each with the scope that it is
computed in, and `Aggs.Sits` says that a tree is found within another at some scope.
-/

set_option autoImplicit false

namespace Tabula

/-! ## Kinds -/

namespace AggKind

/-- The scope below an aggregation. -/
def scope (outer : String) : AggKind → String
  | nested path => path
  | reverseNested path => path.getD Path.root
  | _ => outer

/-- Whether an aggregation may stand in a scope: a step in goes strictly below it, a step out to
a strict ancestor. -/
def Legal (outer : String) : AggKind → Prop
  | nested path => Path.StrictlyBelow outer path
  | reverseNested path => Path.StrictlyBelow (path.getD Path.root) outer
  | _ => True

/-- Whether an aggregation is no step. -/
def Stays : AggKind → Prop
  | nested _ | reverseNested _ => False
  | _ => True

theorem Stays.scope_eq {kind : AggKind} (h : kind.Stays) (outer : String) :
    kind.scope outer = outer := by
  cases kind with
  | nested path => exact h.elim
  | reverseNested path => exact h.elim
  | _ => rfl

theorem Stays.legal {kind : AggKind} (h : kind.Stays) (outer : String) : kind.Legal outer := by
  cases kind with
  | nested path => exact h.elim
  | reverseNested path => exact h.elim
  | _ => trivial

end AggKind

/-- A step leads to the scope that it is meant for. -/
theorem Aggs.scope_step (outer inner : String) : (Aggs.step outer inner).scope outer = inner := by
  unfold Aggs.step
  split
  next => rfl
  next =>
      by_cases hroot : inner = Path.root
      · rw [if_pos hroot, hroot]
        rfl
      · rw [if_neg hroot]
        rfl

/-- **The step between two comparable scopes is legal**, and leads from one to the other. -/
theorem Aggs.legal_step {outer inner : String} (hne : inner ≠ outer)
    (hc : Path.Comparable outer inner) :
    (Aggs.step outer inner).Legal outer ∧ (Aggs.step outer inner).scope outer = inner := by
  refine ⟨?_, Aggs.scope_step outer inner⟩
  unfold Aggs.step
  split
  next hin => exact ⟨hin, hne⟩
  next hout =>
      have hback : Path.contains inner outer = true := hc.resolve_left hout
      by_cases hroot : inner = Path.root
      · rw [if_pos hroot]
        subst hroot
        exact ⟨hback, hne.symm⟩
      · rw [if_neg hroot]
        exact ⟨hback, hne.symm⟩

/-! ## Trees -/

mutual

/-- Whether an aggregation in a scope, and what is below it, makes only legal steps. -/
def Agg.Legal (scope : String) : Agg → Prop
  | .node kind below => kind.Legal scope ∧ Aggs.Legal (kind.scope scope) below

/-- Whether a tree in a scope makes only legal steps. -/
def Aggs.Legal (scope : String) : List (String × Agg) → Prop
  | [] => True
  | (_, agg) :: rest => Agg.Legal scope agg ∧ Aggs.Legal scope rest

end

mutual

/-- The ends of an aggregation in a scope, each with the scope that it is computed in. -/
def Agg.leaves (scope : String) : Agg → List (String × AggKind)
  | .node kind [] => [(scope, kind)]
  | .node kind (sub :: below) => Aggs.leaves (kind.scope scope) (sub :: below)

/-- The ends of a tree in a scope, each with the scope that it is computed in. -/
def Aggs.leaves (scope : String) : List (String × Agg) → List (String × AggKind)
  | [] => []
  | (_, agg) :: rest => Agg.leaves scope agg ++ Aggs.leaves scope rest

end

namespace Aggs

/-- A tree found at a scope within another. -/
inductive Sits (inner : Aggs) (place : String) : String → Aggs → Prop where
  | whole : Sits inner place place inner
  | inside {scope name : String} {kind : AggKind} {content tree : Aggs} :
      (name, .node kind content) ∈ tree → Sits inner place (kind.scope scope) content →
        Sits inner place scope tree

theorem Sits.trans {inner middle outer : Aggs} {s t u : String} (h : Sits inner s t middle)
    (h' : Sits middle t u outer) : Sits inner s u outer := by
  induction h' with
  | whole => exact h
  | inside hmem _ ih => exact .inside hmem ih

theorem legal_iff {scope : String} {aggs : Aggs} :
    Aggs.Legal scope aggs ↔ ∀ a ∈ aggs, a.2.Legal scope := by
  induction aggs with
  | nil => simp [Aggs.Legal]
  | cons a aggs ih =>
      obtain ⟨name, agg⟩ := a
      simp only [Aggs.Legal, ih, List.forall_mem_cons]

theorem mem_leaves {scope : String} {aggs : Aggs} {leaf : String × AggKind} :
    leaf ∈ Aggs.leaves scope aggs ↔ ∃ a ∈ aggs, leaf ∈ a.2.leaves scope := by
  induction aggs with
  | nil => simp [Aggs.leaves]
  | cons a aggs ih =>
      obtain ⟨name, agg⟩ := a
      simp [Aggs.leaves, ih]

theorem leaves_node {scope : String} {kind : AggKind} {below : Aggs} (h : below ≠ []) :
    (Agg.node kind below).leaves scope = Aggs.leaves (kind.scope scope) below := by
  cases below with
  | nil => exact absurd rfl h
  | cons sub below => simp only [Agg.leaves]

/-! ## Wrapping -/

theorem legal_wrap {scope name : String} {kind : AggKind} {aggs : Aggs} :
    Aggs.Legal scope (aggs.wrap name kind)
      ↔ kind.Legal scope ∧ Aggs.Legal (kind.scope scope) aggs := by
  simp only [Aggs.wrap, Aggs.Legal, Agg.Legal, and_true]

theorem leaves_wrap {scope name : String} {kind : AggKind} {aggs : Aggs} (h : aggs ≠ []) :
    Aggs.leaves scope (aggs.wrap name kind) = Aggs.leaves (kind.scope scope) aggs := by
  simp only [Aggs.wrap, Aggs.leaves, leaves_node h, List.append_nil]

end Aggs

end Tabula
