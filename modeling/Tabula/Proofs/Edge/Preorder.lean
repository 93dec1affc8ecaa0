import Tabula.Proofs.Edge.Keys
import Tabula.Proofs.Edge.Tally

/-!
# Sorting values

Values can be sorted: comparing them is a total preorder (`TotalPreorder`), however deep they are
nested, and so is comparing the entries of a tally by value in either direction, or by documents
and then by value. Freezing therefore yields the one list of entries that is in order and leaves
those that are tied where they were (`freeze_arranges`).
-/

set_option autoImplicit false

namespace Tabula

/-- Whether a comparison is a total preorder: everything is equal to itself, comparing the other
way round gives the opposite answer, and what is not above one thing is not above what that is not
above. -/
structure TotalPreorder {α : Type} (cmp : α → α → Ordering) : Prop where
  refl : ∀ a, cmp a a = .eq
  swap : ∀ a b, cmp b a = (cmp a b).swap
  trans : ∀ a b c, (cmp a b).isLE → (cmp b c).isLE → (cmp a c).isLE

theorem totalPreorder_of_transCmp {α : Type} (cmp : α → α → Ordering) [Std.TransCmp cmp] :
    TotalPreorder cmp where
  refl _ := Std.ReflCmp.compare_self
  swap _ _ := Std.OrientedCmp.eq_swap
  trans _ _ _ := Std.TransCmp.isLE_trans

namespace Tally

/-- **Freezing yields the one arrangement of the entries**, cut at the limit. -/
theorem freeze_arranges (t : Tally) (sort : Option Direction) (limit : ℕ) :
    ∃ entries, (∀ other, Lists.Arranges (compareEntries sort) t.pending other ↔ other = entries)
      ∧ (t.freeze sort limit).frozen
        = some { retained := entries.take limit, beyond := entries.drop limit } := by
  refine ⟨t.pending.mergeSort (entryLe sort), fun other => ?_, rfl⟩
  rw [entryLe_eq]
  exact Lists.arranges_iff

end Tally

/-- **Values can be sorted.** Comparing values is a total preorder in which numbers go by the exact
values of their doubles, and freezing sorts by a total preorder of entries, which leaves it one
result. -/
theorem values_sortable :
    TotalPreorder compareValues
      ∧ (∀ m n, compareValues (.num m) (.num n)
        = compare (Double.value m.toFloat) (Double.value n.toFloat))
      ∧ ∀ sort, TotalPreorder (Tally.compareEntries sort)
        ∧ ∀ (t : Tally) (limit : ℕ), ∃ entries,
          (∀ other, Lists.Arranges (Tally.compareEntries sort) t.pending other ↔ other = entries)
          ∧ (t.freeze sort limit).frozen
            = some { retained := entries.take limit, beyond := entries.drop limit } := by
  refine ⟨totalPreorder_of_transCmp _, compareValues_num, fun sort => ⟨?_, fun t limit => ?_⟩⟩
  · exact totalPreorder_of_transCmp _
  · exact t.freeze_arranges sort limit

end Tabula
