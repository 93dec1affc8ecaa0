import Tabula.Grouping.Plan
import Tabula.Proofs.Path.Names
import Tabula.Proofs.Search.Scopes

/-!
# Going from one nested path to another

While a tree is built, its content moves from the scope that it is in to the next path. Whatever
the two paths are, the content is found again in its own scope (`sits_rescope`). But there is only
one step between them, out of nested documents or into them, and the backend takes it exactly when
one path is inside of the other (`entered_rescope_iff`). Beside each other, two paths are joined by
no such step.
-/

set_option autoImplicit false

namespace Tabula

/-! ## Steps -/

namespace Aggs

/-- A step that the backend takes joins comparable scopes. -/
theorem comparable_of_legal_step {outer inner : String} (h : (step outer inner).Legal outer) :
    Path.Comparable outer inner := by
  unfold step at h
  split at h
  next hin => exact Or.inl hin
  next =>
      by_cases hroot : inner = Path.root
      · rw [if_pos hroot] at h
        rw [hroot]
        exact Or.inr h.1
      · rw [if_neg hroot] at h
        exact Or.inr h.1

theorem not_stays_step (outer inner : String) : ¬ (step outer inner).Stays := by
  unfold step
  split
  next => exact id
  next => exact id

/-- A tree that leads from a scope to some content in its own scope, by steps into nested documents
and out of them that the backend takes, and that asks for nothing on the way. -/
inductive Entered (content : Aggs) (place : String) : String → Aggs → Prop where
  | here : Entered content place place content
  | step {scope : String} {kind : AggKind} {inner : Aggs} :
      ¬ kind.Stays → kind.Legal scope → Entered content place (kind.scope scope) inner →
        Entered content place scope (inner.wrap "_nested" kind)

/-- Content that moves is found in its own scope. -/
theorem sits_rescope (scope target : String) (content : Aggs) :
    Sits content scope target (content.rescope scope target) := by
  unfold rescope
  split
  next heq =>
      rw [heq]
      exact .whole
  next =>
      refine .inside List.mem_cons_self ?_
      rw [scope_step]
      exact .whole

/-- **Content that moves is entered by steps that the backend takes** exactly between comparable
scopes. -/
theorem entered_rescope_iff {scope target : String} {content : Aggs} :
    Entered content scope target (content.rescope scope target)
      ↔ Path.Comparable target scope := by
  have hself (path : String) : Path.Comparable path path := Or.inl (by simp [Path.contains])
  unfold rescope
  split
  next heq =>
      rw [heq]
      exact iff_of_true .here (hself target)
  next hne =>
      constructor
      · -- what is wrapped is one step, and only to itself does a scope need none
        generalize htree : content.wrap "_nested" (step target scope) = tree
        intro h
        cases h with
        | here => exact hself scope
        | step _ hlegal _ =>
            cases htree
            exact comparable_of_legal_step hlegal
      · intro hc
        obtain ⟨hlegal, hscope⟩ := legal_step hne hc
        refine .step (not_stays_step target scope) hlegal ?_
        rw [hscope]
        exact .here

end Aggs

/-! ## Visits -/

namespace Grouping

def Assembly.ofMetrics (metrics : Aggs) (queryDepth : String) : Assembly where
  metrics := metrics
  queryDepth := queryDepth
  decoders := []
  conditions := []

/-- Where nothing lives, a visit takes the tree to the path and leaves it as it is. -/
theorem Assembly.wrapPaths_ofMetrics (catalog : Catalog) (metrics tree : Aggs)
    (queryDepth scope target : String) :
    (ofMetrics metrics queryDepth).wrapPaths catalog [target] scope tree
      = .ok (target, tree.rescope scope target) := rfl

/-- **Going from one nested path to another lands where it says** exactly when the names of one
path are the first of the other's: only then is the content entered by steps that the backend takes.
Whatever the paths are, the scope that is reached is the target, and the content is found from there
in its own scope. -/
theorem lands_iff {scope target : String} (hs : Path.WellFormed scope)
    (ht : Path.WellFormed target) (catalog : Catalog) (content : Aggs) :
    (Assembly.ofMetrics content scope).wrapPaths catalog [target] scope content
        = .ok (target, content.rescope scope target)
      ∧ Aggs.Sits content scope target (content.rescope scope target)
      ∧ (Aggs.Entered content scope target (content.rescope scope target)
        ↔ Path.places scope <+: Path.places target ∨ Path.places target <+: Path.places scope) := by
  refine ⟨Assembly.wrapPaths_ofMetrics catalog _ _ _ _ _, Aggs.sits_rescope _ _ _, ?_⟩
  rw [Aggs.entered_rescope_iff, Path.comparable_iff ht hs, or_comm]

def nestedCount : Aggs := [("n", .leaf (.valueCount (.column "a.n")))]

theorem lands_iff_inside : Path.WellFormed "a" ∧ Path.WellFormed "a.b.c"
    ∧ Aggs.Entered nestedCount "a" "a.b.c" (nestedCount.rescope "a" "a.b.c") := by
  have hs : Path.WellFormed "a" := Or.inr (by decide)
  have ht : Path.WellFormed "a.b.c" := Or.inr (by decide)
  obtain ⟨-, -, hentered⟩ := lands_iff hs ht (.overRoot "t" []) nestedCount
  exact ⟨hs, ht, hentered.mpr (Or.inl (by decide))⟩

/-- Between paths beside each other there is a step, but one that the backend refuses. -/
theorem not_entered_beside : Path.WellFormed "a" ∧ Path.WellFormed "b" ∧ "a" ≠ "b"
    ∧ ¬ Aggs.Entered nestedCount "a" "b" (nestedCount.rescope "a" "b") := by
  refine ⟨Or.inr (by decide), Or.inr (by decide), by decide, ?_⟩
  rw [Aggs.entered_rescope_iff]
  decide

end Grouping

end Tabula
