import Mathlib.Data.List.Basic
import Tabula.Expr.Filter
import Tabula.Expr.Fold

/-!
# Folding without variables

When values stand in place of the variables of an expression (`Expr.bind`), a condition folds to
true, to false or to null (`Expr.Decided`), and the connectives fold by their truth tables, null
being as good as false (`foldAnd_of_decided`, `foldOr_of_decided`). Two values compare by sameness
or by their order (`isTrue_foldCompare`), which are the same or opposite when they are exchanged
(`same_swap`, `order?_swap`).
-/

set_option autoImplicit false

namespace Tabula

namespace Expr

/-! ## Binding -/

mutual

/-- An expression with values in place of its variables. -/
def bind (value : String → Json) : Expr → Expr
  | literal v => .literal v
  | var name => .literal (value name)
  | leaves path => .leaves path
  | tuple ts => .tuple (bindAll value ts)
  | compare op a b => .compare op (bind value a) (bind value b)
  | and ts => .and (bindAll value ts)
  | or ts => .or (bindAll value ts)
  | not t => .not (bind value t)
  | present t => .present (bind value t)
  | missing t => .missing (bind value t)
  | startsWith t start => .startsWith (bind value t) start
  | oneOf t values => .oneOf (bind value t) values
  | arith op ts => .arith op (bindAll value ts)
  | coalesce ts => .coalesce (bindAll value ts)

def bindAll (value : String → Json) : List Expr → List Expr
  | [] => []
  | t :: rest => bind value t :: bindAll value rest

end

theorem bindAll_eq (value : String → Json) (ts : List Expr) :
    bindAll value ts = ts.map (bind value) := by
  induction ts with
  | nil => rfl
  | cons t ts ih => rw [bindAll, ih, List.map_cons]

theorem foldAll_eq (ts : List Expr) : foldAll ts = ts.map fold := by
  induction ts with
  | nil => rfl
  | cons t ts ih => rw [foldAll, ih, List.map_cons]

/-! ## Truth values -/

/-- Whether a folded condition says yes or no, or nothing, which is no as well. -/
inductive Decided : Expr → Prop
  | bool (b : Bool) : Decided (.literal (.bool b))
  | null : Decided .null

theorem isTrue_bool (b : Bool) : (Expr.literal (.bool b)).isTrue = b := by cases b <;> rfl

/-- A decided term that is not true is false or null. -/
theorem Decided.isTrue_or {t : Expr} (h : Decided t) :
    t = truth ∨ t.isTrue = false ∧ (t.isFalse || t.isNull) = true := by
  cases h with
  | bool b => cases b <;> simp [truth, isTrue, isFalse]
  | null => exact Or.inr ⟨rfl, rfl⟩

/-- **A conjunction of decided terms** is true when all of them are. -/
theorem foldAnd_of_decided {ts : List Expr} (h : ∀ t ∈ ts, Decided t) :
    foldAnd ts = .literal (.bool (ts.all isTrue)) := by
  unfold foldAnd
  split
  next hany =>
      obtain ⟨t, ht, hno⟩ := List.any_eq_true.mp hany
      have hfalse : ts.all isTrue = false := by
        refine List.all_eq_false.mpr ⟨t, ht, ?_⟩
        rcases (h t ht).isTrue_or with rfl | ⟨hnot, -⟩
        · cases hno
        · simp [hnot]
      rw [hfalse]
      rfl
  next hnone =>
      -- no term is false or null, and each is decided
      have htrue : ∀ t ∈ ts, t = truth := by
        intro t ht
        refine (h t ht).isTrue_or.resolve_right fun hno => hnone ?_
        exact List.any_eq_true.mpr ⟨t, ht, hno.2⟩
      have hterms : ts.flatMap andTerms = [] :=
        List.flatMap_eq_nil_iff.mpr fun t ht => by rw [htrue t ht]; rfl
      have hall : ts.all isTrue = true := List.all_eq_true.mpr fun t ht => by rw [htrue t ht]; rfl
      rw [hterms, hall]
      rfl

/-- **A disjunction of decided terms** is true when some of them is. -/
theorem foldOr_of_decided {ts : List Expr} (h : ∀ t ∈ ts, Decided t) :
    foldOr ts = .literal (.bool (ts.any isTrue)) := by
  unfold foldOr
  split
  next hany =>
      rw [hany]
      rfl
  next hnone =>
      have hterms : ts.flatMap orTerms = [] := by
        refine List.flatMap_eq_nil_iff.mpr fun t ht => ?_
        rcases (h t ht).isTrue_or with rfl | ⟨-, hno⟩
        · exact absurd (List.any_eq_true.mpr ⟨truth, ht, rfl⟩) hnone
        · cases h t ht with
          | bool b => exact if_pos hno
          | null => rfl
      rw [hterms, eq_false_of_ne_true hnone]
      rfl

/-- A conjunction folds to whether all of its terms do to true. -/
theorem fold_bind_and {value : String → Json} {ts : List Expr}
    (h : ∀ t ∈ ts, Decided (t.bind value).fold) : ((and ts).bind value).fold
      = .literal (.bool (ts.all fun t => (t.bind value).fold.isTrue)) := by
  rw [bind, fold, bindAll_eq, foldAll_eq, foldAnd_of_decided, List.all_map, List.all_map]
  · rfl
  · exact List.forall_mem_map.mpr (List.forall_mem_map.mpr h)

/-- A disjunction folds to whether some of its terms does to true. -/
theorem fold_bind_or {value : String → Json} {ts : List Expr}
    (h : ∀ t ∈ ts, Decided (t.bind value).fold) : ((or ts).bind value).fold
      = .literal (.bool (ts.any fun t => (t.bind value).fold.isTrue)) := by
  rw [bind, fold, bindAll_eq, foldAll_eq, foldOr_of_decided, List.any_map, List.any_map]
  · rfl
  · exact List.forall_mem_map.mpr (List.forall_mem_map.mpr h)

/-! ## Comparing values -/

theorem literalType?_of_same {a b : Json} (h : a.same b = true) :
    literalType? a = literalType? b := by
  cases a <;> cases b <;> first | rfl | simp [Json.same] at h

theorem literalType?_of_order? {a b : Json} {o : Ordering} (h : order? a b = some o) :
    literalType? a = literalType? b := by
  cases a <;> cases b <;> first | rfl | simp [order?] at h

/-- Whether a scalar is one of some values is seen from those of its type. -/
theorem containedIn_filter_type {v : Json} {type : ColumnType} (h : literalType? v = some type)
    (values : List Json) : v.containedIn (values.filter fun w => literalType? w == some type)
      = v.containedIn values := by
  rw [Json.containedIn, Json.containedIn, List.any_filter]
  refine congrArg (List.any _) (funext fun w => ?_)
  cases hsame : w.same v with
  | false => rw [Bool.and_false]
  | true => rw [literalType?_of_same hsame, h, beq_self_eq_true, Bool.and_self]

theorem order?_swap (a b : Json) : order? b a = (order? a b).map Ordering.swap := by
  have exchange {α : Type} [Ord α] [Std.OrientedOrd α] (x y : α) :
      Ord.compare y x = (Ord.compare x y).swap := Std.OrientedOrd.eq_swap
  cases a <;> cases b <;> first | rfl | exact congrArg some (exchange _ _)

theorem holds_swap (op : CompareOp) (o : Ordering) : op.holds o.swap = op.flip.holds o := by
  cases op <;> cases o <;> rfl

theorem same_swap {a : Json} (h : literalType? a ≠ none) (b : Json) : b.same a = a.same b := by
  cases a with
  | str x => cases b <;> simp [Json.same, Bool.beq_comm]
  | bool x => cases b <;> simp [Json.same, Bool.beq_comm]
  | num x =>
      cases b with
      | num y => cases x <;> cases y <;> simp [Json.same, Number.same, Bool.beq_comm]
      | _ => simp [Json.same]
  | null => exact absurd rfl h
  | arr items => exact absurd rfl h
  | obj fields => exact absurd rfl h

/-- Only an object is the same as an object, either way. -/
theorem same_obj {a : Json} (h : a.isObj = false) (fields : Fields) :
    a.same (.obj fields) = false ∧ (Json.obj fields).same a = false := by
  cases a <;> first | exact ⟨rfl, rfl⟩ | cases h

/-- Null is the same as null only, and has no order. -/
theorem same_order?_of_isNull {a b : Json} (h : (a.isNull || b.isNull) = true) :
    a.same b = (a.isNull && b.isNull) ∧ order? a b = none := by
  cases a <;> cases b <;> first | exact ⟨rfl, rfl⟩ | cases h

/-- Values are compared by sameness, or else by their order, and null like any other. -/
theorem foldCompare_eq (op : CompareOp) (a b : Json) :
    foldCompare op a b = match op with
      | .eq => .literal (.bool (a.same b))
      | .ne => .literal (.bool (!a.same b))
      | _ => match order? a b with
        | some o => .literal (.bool (op.holds o))
        | none => null := by
  unfold foldCompare
  split
  next hnull =>
      obtain ⟨hsame, horder⟩ := same_order?_of_isNull hnull
      rw [hsame, horder]
      clear hsame horder
      revert hnull
      cases a.isNull <;> cases b.isNull <;> cases op <;> simp
  next => rfl

/-- **What a comparison of two values says**: whether they are the same, whether they are not, or
whether their order is one of those that satisfy it. -/
theorem isTrue_foldCompare (op : CompareOp) (a b : Json) :
    (foldCompare op a b).isTrue = match op with
      | .eq => a.same b
      | .ne => !a.same b
      | _ => (order? a b).any op.holds := by
  rw [foldCompare_eq]
  cases order? a b <;> cases op <;> first | rfl | exact isTrue_bool _

theorem decided_foldCompare (op : CompareOp) (a b : Json) : Decided (foldCompare op a b) := by
  rw [foldCompare_eq]
  cases order? a b <;> cases op <;> constructor

end Expr

end Tabula
