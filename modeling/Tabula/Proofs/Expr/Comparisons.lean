import Tabula.Proofs.Expr.Normal
import Tabula.Proofs.Json.Same
import Tabula.Proofs.Number.Rounding

/-!
# Folded comparisons

Two numbers, two texts or two booleans have an order, which tells which of the six comparisons of
them fold to true (`fold_compare_literal`). Equality is decided apart from the order, by sameness.
Values that are the same have no order but equality (`order?_of_same`); the converse fails for
numbers that stand at one place but are not the same value (`Number.Blurred`), an integer and its
double among them. So of below, equal and above exactly one holds unless two numbers are blurred
(`compare_coherent`), which no two doubles are, and two integers only when they have more than
fifty-three digits (`Number.blurred_iff_of_isExact`).
-/

set_option autoImplicit false

namespace Tabula

/-! ## Numbers at one place -/

namespace Number

/-- Two numbers stand at one place of the number line without being the same value. -/
def Blurred (m n : Number) : Prop := m.orderKey = n.orderKey ∧ m.same n = false

theorem orderKey_of_same {m n : Number} (h : m.same n = true) : m.orderKey = n.orderKey := by
  cases m with
  | int i =>
      cases n with
      | int j => rw [eq_of_beq h]
      | float y => cases h
  | float x =>
      cases n with
      | int j => cases h
      | float y => exact eq_of_beq h

/-- **Which numbers are blurred**: of doubles and of the integers that are doubles, an integer and
a double of one value. -/
theorem blurred_iff_of_isExact {m n : Number} (hm : m.isProper = true) (hn : n.isProper = true)
    (hm' : m.isExact = true) (hn' : n.isExact = true) : Blurred m n ↔ m.value = n.value
      ∧ ((∃ i x, m = int i ∧ n = float x) ∨ ∃ i x, m = float x ∧ n = int i) := by
  have hplace : m.orderKey = n.orderKey ↔ m.value = n.value := by
    rw [← value_toFloat_of_isExact hm hm', ← value_toFloat_of_isExact hn hn']
    exact Double.orderKey_eq_iff
  rw [Blurred, hplace]
  refine and_congr_right fun hvalue => ?_
  cases m with
  | int i =>
      cases n with
      | int j =>
          have hij : i = j := Int.cast_injective hvalue
          simp [same, hij]
      | float y => simp [same]
  | float x =>
      cases n with
      | int j => simp [same]
      | float y =>
          have hxy : Double.orderKey x = Double.orderKey y := hplace.mpr hvalue
          simp [same, hxy]

end Number

namespace Expr

/-! ## Order and sameness -/

/-- Whether two values are both numbers, both texts or both booleans. -/
inductive OneType : Json → Json → Prop
  | numbers (m n : Number) : OneType (.num m) (.num n)
  | texts (s t : String) : OneType (.str s) (.str t)
  | bools (a b : Bool) : OneType (.bool a) (.bool b)

/-- Two values are numbers at one place that are not the same. -/
inductive Blurred : Json → Json → Prop
  | numbers {m n : Number} (h : m.Blurred n) : Blurred (.num m) (.num n)

variable {a b : Json}

theorem fold_compare_literal (op : CompareOp) (a b : Json) :
    (compare op (.literal a) (.literal b)).fold = foldCompare op a b := by
  rw [fold_compare]
  rfl

theorem fold_not_compare_literal (op : CompareOp) (a b : Json) :
    (not (compare op (.literal a) (.literal b))).fold = foldNot (foldCompare op a b) := by
  rw [fold, fold_compare_literal]

/-- Values of one type have an order. -/
theorem OneType.exists_order (h : OneType a b) : ∃ o, order? a b = some o := by
  cases h <;> exact ⟨_, rfl⟩

theorem OneType.order?_ne_none (h : OneType a b) : order? a b ≠ none := by
  obtain ⟨o, ho⟩ := h.exists_order
  rw [ho]
  exact Option.some_ne_none o

/-- Values of one type that are the same are neither below nor above each other. -/
theorem OneType.order?_of_same (h : OneType a b) (hsame : a.same b = true) :
    order? a b = some .eq := by
  cases h with
  | numbers m n =>
      exact congrArg some (Std.LawfulEqCmp.compare_eq_iff_eq.mpr (Number.orderKey_of_same hsame))
  | texts s t | bools s t =>
      exact congrArg some (Std.LawfulEqCmp.compare_eq_iff_eq.mpr (eq_of_beq hsame))

/-- **Values of one type are blurred** when they are neither below nor above each other nor the
same. -/
theorem OneType.blurred_iff (h : OneType a b) :
    Blurred a b ↔ order? a b = some .eq ∧ a.same b = false := by
  cases h with
  | numbers m n =>
      rw [order?, Json.same, Option.some_inj, Std.LawfulEqCmp.compare_eq_iff_eq]
      constructor
      · intro hblurred
        cases hblurred with
        | numbers h => exact h
      · exact .numbers
  | texts s t | bools s t =>
      -- equal texts and equal booleans are the same
      rw [order?, Json.same, Option.some_inj, Std.LawfulEqCmp.compare_eq_iff_eq]
      constructor
      · intro hblurred
        cases hblurred
      · rintro ⟨hequal, hnot⟩
        rw [hequal, beq_self_eq_true] at hnot
        cases hnot

/-! ## Coherence -/

def orders : List CompareOp := [.lt, .eq, .gt]

/-- Exchanging values that have distinct names inside is the same as flipping the comparison. -/
theorem foldCompare_flip (op : CompareOp) (ha : a.namesDistinct = true)
    (hb : b.namesDistinct = true) : foldCompare op a b = foldCompare op.flip b a := by
  have hsame : a.same b = b.same a :=
    Bool.eq_iff_iff.mpr ⟨Json.same_symm ha hb, Json.same_symm hb ha⟩
  rw [foldCompare_eq, foldCompare_eq, order?_swap a b, hsame]
  cases order? a b with
  | none => cases op <;> rfl
  | some o => cases op <;> cases o <;> rfl

theorem foldCompare_ne (a b : Json) : foldCompare .ne a b = foldNot (foldCompare .eq a b) := by
  rw [foldCompare_eq, foldCompare_eq]
  rfl

/-- Of values that have an order, one is at least the other when it is not below it. -/
theorem foldCompare_gte (h : order? a b ≠ none) :
    foldCompare .gte a b = foldNot (foldCompare .lt a b) := by
  obtain ⟨o, ho⟩ := Option.ne_none_iff_exists'.mp h
  rw [foldCompare_eq, foldCompare_eq, ho]
  cases o <;> rfl

/-- Of values that have an order, one is at most the other when it is not above it. -/
theorem foldCompare_lte (h : order? a b ≠ none) :
    foldCompare .lte a b = foldNot (foldCompare .gt a b) := by
  obtain ⟨o, ho⟩ := Option.ne_none_iff_exists'.mp h
  rw [foldCompare_eq, foldCompare_eq, ho]
  cases o <;> rfl

/-- Which of below, equal and above folds to true is told by the order and, for equal values, by
sameness. -/
theorem foldCompare_eq_truth_iff {op : CompareOp} (hop : op ∈ orders) {o : Ordering}
    (ho : order? a b = some o) : foldCompare op a b = truth
      ↔ op = .lt ∧ o = .lt ∨ op = .eq ∧ a.same b = true ∨ op = .gt ∧ o = .gt := by
  rw [foldCompare_eq, ho]
  simp only [orders, List.mem_cons, List.not_mem_nil, or_false] at hop
  rcases hop with rfl | rfl | rfl
  · cases o <;> simp [truth, CompareOp.holds]
  · simp [truth]
  · cases o <;> simp [truth, CompareOp.holds]

/-- Blurred values are neither below nor above each other, nor equal. -/
theorem OneType.foldCompare_of_blurred (h : OneType a b) (hblurred : Blurred a b) {op : CompareOp}
    (hop : op ∈ orders) : foldCompare op a b = falsity := by
  obtain ⟨ho, hsame⟩ := h.blurred_iff.mp hblurred
  rw [foldCompare_eq, ho, hsame]
  simp only [orders, List.mem_cons, List.not_mem_nil, or_false] at hop
  rcases hop with rfl | rfl | rfl <;> rfl

/-- **Exactly one of below, equal and above** folds to true for values of one type, unless they are
blurred. -/
theorem OneType.existsUnique_iff (h : OneType a b) :
    (∃! op, op ∈ orders ∧ foldCompare op a b = truth) ↔ ¬ Blurred a b := by
  obtain ⟨o, ho⟩ := h.exists_order
  have hmeans : ∀ op, (op ∈ orders ∧ foldCompare op a b = truth)
      ↔ op = .lt ∧ o = .lt ∨ op = .eq ∧ a.same b = true ∨ op = .gt ∧ o = .gt := by
    refine fun op => ⟨fun ⟨hop, htrue⟩ => (foldCompare_eq_truth_iff hop ho).mp htrue, fun hor => ?_⟩
    have hop : op ∈ orders := by
      rcases hor with ⟨rfl, -⟩ | ⟨rfl, -⟩ | ⟨rfl, -⟩ <;> decide
    exact ⟨hop, (foldCompare_eq_truth_iff hop ho).mpr hor⟩
  have horder : a.same b = true → o = .eq := fun hsame =>
    Option.some_inj.mp (ho.symm.trans (h.order?_of_same hsame))
  rw [h.blurred_iff, ho]
  simp only [hmeans]
  cases o with
  | lt | gt =>
      have hnot : a.same b = false := by
        by_contra hsame
        cases horder (eq_true_of_ne_false hsame)
      simp [hnot]
  | eq => cases a.same b <;> simp

/-- **Folded comparisons are coherent.** Of below, equal and above exactly one folds to true for two
numbers, two texts or two booleans, unless they are blurred: then all three fold to false. Different
folds to the negation of equal, at least to that of below and at most to that of above. For all
values, exchanging them is the same as flipping the comparison. -/
theorem compare_coherent (op : CompareOp) (a b : Json) :
    (OneType a b →
      ((∃! op, op ∈ orders ∧ (compare op (.literal a) (.literal b)).fold = truth) ↔ ¬ Blurred a b)
      ∧ (Blurred a b → ∀ op ∈ orders, (compare op (.literal a) (.literal b)).fold = falsity)
      ∧ (compare .ne (.literal a) (.literal b)).fold
        = (not (compare .eq (.literal a) (.literal b))).fold
      ∧ (compare .gte (.literal a) (.literal b)).fold
        = (not (compare .lt (.literal a) (.literal b))).fold
      ∧ (compare .lte (.literal a) (.literal b)).fold
        = (not (compare .gt (.literal a) (.literal b))).fold)
    ∧ (a.namesDistinct = true → b.namesDistinct = true →
      (compare op (.literal a) (.literal b)).fold
        = (compare op.flip (.literal b) (.literal a)).fold) := by
  simp only [fold_not_compare_literal, fold_compare_literal]
  refine ⟨fun h => ⟨h.existsUnique_iff, fun hblurred op => h.foldCompare_of_blurred hblurred,
    foldCompare_ne a b, ?_, ?_⟩, foldCompare_flip op⟩
  · exact foldCompare_gte h.order?_ne_none
  · exact foldCompare_lte h.order?_ne_none

/-- One is above a half, and neither equal to it nor below. -/
theorem compare_coherent_integer_and_half :
    (∃! op, op ∈ orders
      ∧ (compare op (.literal (.int 1)) (.literal (.float 0.5))).fold = truth)
    ∧ (compare .gt (.literal (.int 1)) (.literal (.float 0.5))).fold
      = (compare .lt (.literal (.float 0.5)) (.literal (.int 1))).fold := by
  obtain ⟨hone, hflip⟩ := compare_coherent .gt (.int 1) (.float 0.5)
  refine ⟨(hone (.numbers (.int 1) (.float 0.5))).1.mpr fun ⟨hplace, _⟩ => ?_, hflip rfl rfl⟩
  revert hplace
  decide +kernel

/-- An integer and its double are neither below nor above each other, nor equal. -/
theorem not_one_comparison_of_one : ¬ ∃! op, op ∈ orders
    ∧ (compare op (.literal (.int 1)) (.literal (.float 1.0))).fold = truth := by
  intro hone
  refine (OneType.numbers (.int 1) (.float 1.0)).existsUnique_iff.mp hone (.numbers ⟨?_, rfl⟩)
  decide +kernel

end Expr

end Tabula
