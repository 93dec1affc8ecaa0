import Tabula.Expr.Filter
import Tabula.Proofs.Search.Meaning

/-!
# Equal and not equal

Whether a field equals a value is asked of every column that can hold the value, and so is whether
it does not: one column is enough for either answer. So every document satisfies the one filter or
the other, and it satisfies both as soon as two of the columns answer differently. The filters are
complements of each other for the documents of which all columns answer alike, and for all
documents only when the columns are one (`Expr.complement_iff`).
-/

set_option autoImplicit false

namespace Tabula.Expr

variable {catalog : Catalog} {name : String} {v : Json}

/-! ## Answers of several columns -/

section Answers

variable {α : Type} {xs : List α} {p : α → Bool}

/-- Of some members, one answers yes or one answers no. -/
theorem any_or_any_not (h : xs ≠ []) : xs.any p = true ∨ (xs.any fun x => !p x) = true := by
  obtain ⟨x, hx⟩ := List.exists_mem_of_ne_nil _ h
  by_cases hp : p x = true
  · exact Or.inl (List.any_eq_true.mpr ⟨x, hx, hp⟩)
  · exact Or.inr (List.any_eq_true.mpr ⟨x, hx, by simpa using hp⟩)

/-- Members that answer like one of them answer together like this one. -/
theorem any_eq_of_alike {x : α} (hx : x ∈ xs) (hall : ∀ y ∈ xs, p y = p x) : xs.any p = p x := by
  rw [Bool.eq_iff_iff, List.any_eq_true]
  constructor
  · rintro ⟨y, hy, hpy⟩
    rw [← hall y hy, hpy]
  · intro hpx
    exact ⟨x, hx, hpx⟩

/-- Some member answers no exactly when none answers yes, if and only if all of them answer
alike. -/
theorem any_not_eq_iff (h : xs ≠ []) :
    (xs.any fun x => !p x) = !xs.any p ↔ ∀ x ∈ xs, ∀ y ∈ xs, p x = p y := by
  constructor
  · intro heq
    have hyes : ∀ x ∈ xs, ∀ y ∈ xs, p x = true → p y = true := by
      intro x hx y hy hpx
      have hany : xs.any p = true := List.any_eq_true.mpr ⟨x, hx, hpx⟩
      rw [hany, Bool.not_true, List.any_eq_false] at heq
      simpa using heq y hy
    intro x hx y hy
    rw [Bool.eq_iff_iff]
    exact ⟨hyes x hx y hy, hyes y hy x hx⟩
  · intro hall
    obtain ⟨x, hx⟩ := List.exists_mem_of_ne_nil _ h
    have hp : xs.any p = p x := any_eq_of_alike hx fun y hy => hall y hy x hx
    have hnot : (xs.any fun y => !p y) = !p x :=
      any_eq_of_alike hx fun y hy => congrArg Bool.not (hall y hy x hx)
    rw [hp, hnot]

end Answers

/-! ## Filters of comparisons -/

theorem meets_equal (hv : v.isNull = false) (test : Filter → Bool) :
    (compareFilter catalog .eq name v).meets test
      = (typedColumns catalog name v).any fun c => test (.term c.stored v) := by
  rw [compareFilter, if_neg (by simp [hv]), Filter.meets_anyOf, List.any_map]
  rfl

theorem meets_notEqual (hv : v.isNull = false) (test : Filter → Bool) :
    (compareFilter catalog .ne name v).meets test
      = (typedColumns catalog name v).any fun c => !test (.term c.stored v) := by
  rw [compareFilter, if_neg (by simp [hv]), Filter.meets_anyOf, List.any_map]
  rfl

/-- The answer of a document of which one column alone holds a value. -/
def heldBy (stored : String) : Filter → Bool
  | .term column _ => column == stored
  | _ => false

/-- **Equal and not equal are complements** exactly for the documents of which all columns that can
hold the literal answer alike, and so for all documents exactly when there is one such column.
Every document satisfies at least one of them, and the operands can be exchanged. -/
theorem complement_iff (hv : v.isNull = false) (hcolumns : typedColumns catalog name v ≠ []) :
    ∃ equal notEqual : Filter,
      filter catalog (.compare .eq (.var name) (.literal v)) = .ok equal
      ∧ filter catalog (.compare .eq (.literal v) (.var name)) = .ok equal
      ∧ filter catalog (.compare .ne (.var name) (.literal v)) = .ok notEqual
      ∧ filter catalog (.compare .ne (.literal v) (.var name)) = .ok notEqual
      ∧ (∀ test, equal.meets test = true ∨ notEqual.meets test = true)
      ∧ (∀ test, notEqual.meets test = !equal.meets test
        ↔ ∀ c ∈ typedColumns catalog name v, ∀ c' ∈ typedColumns catalog name v,
          test (.term c.stored v) = test (.term c'.stored v))
      ∧ ((∀ test, notEqual.meets test = !equal.meets test)
        ↔ ∀ c ∈ typedColumns catalog name v, ∀ c' ∈ typedColumns catalog name v,
          c.stored = c'.stored) := by
  have hiff (test : Filter → Bool) : (compareFilter catalog .ne name v).meets test
      = !(compareFilter catalog .eq name v).meets test
      ↔ ∀ c ∈ typedColumns catalog name v, ∀ c' ∈ typedColumns catalog name v,
        test (.term c.stored v) = test (.term c'.stored v) := by
    rw [meets_equal hv, meets_notEqual hv]
    exact any_not_eq_iff hcolumns
  refine ⟨compareFilter catalog .eq name v, compareFilter catalog .ne name v, rfl, rfl, rfl, rfl,
    ?either, hiff, ?one⟩
  case either =>
      intro test
      rw [meets_equal hv, meets_notEqual hv]
      exact any_or_any_not hcolumns
  case one =>
      constructor
      · -- a document that holds the value in one column only tells it from the others
        intro hall c hc c' hc'
        have halike := (hiff (heldBy c'.stored)).mp (hall _) c hc c' hc'
        simpa [heldBy] using halike
      · intro hone test
        apply (hiff test).mpr
        intro c hc c' hc'
        rw [hone c hc c' hc']

/-! ## Measures -/

def measureColumn (stored : String) (type : ColumnType) : Column where
  name := "m"
  stored
  mapping := "double"
  type
  nestedPath := ["."]

def measureCatalog : Catalog := .overRoot "t" [measureColumn "m.~n~" .number]

/-- A document that has the measure either equals a number or does not. -/
theorem complement_measure : typedColumns measureCatalog "m" (.nat 3) ≠ []
    ∧ ∃ equal notEqual : Filter,
      filter measureCatalog (.compare .eq (.var "m") (.literal (.nat 3))) = .ok equal
      ∧ filter measureCatalog (.compare .ne (.var "m") (.literal (.nat 3))) = .ok notEqual
      ∧ ∀ test, notEqual.meets test = !equal.meets test := by
  have hcolumns : typedColumns measureCatalog "m" (.nat 3) ≠ [] := by decide
  obtain ⟨equal, notEqual, hequal, -, hnotEqual, -, -, -, hone⟩ := complement_iff rfl hcolumns
  exact ⟨hcolumns, equal, notEqual, hequal, hnotEqual, hone.mpr (by decide)⟩

/-- The same measure with a column for that it is there. -/
def markedCatalog : Catalog :=
  .overRoot "t" [measureColumn "m.~n~" .number, measureColumn "m.~e~" .presence]

def measuredDocument : Document := fun column => if column = "m.~n~" then some (.nat 3) else none

/-- **A document is found as equal and as not equal**: the one column holds the number, and the
other one does not. -/
theorem not_complement_marked : typedColumns markedCatalog "m" (.nat 3) ≠ []
    ∧ ∃ equal notEqual : Filter,
      filter markedCatalog (.compare .eq (.var "m") (.literal (.nat 3))) = .ok equal
      ∧ filter markedCatalog (.compare .ne (.var "m") (.literal (.nat 3))) = .ok notEqual
      ∧ equal.meets measuredDocument.test = true ∧ notEqual.meets measuredDocument.test = true :=
  ⟨by decide, _, _, rfl, rfl, by decide, by decide⟩

end Tabula.Expr
