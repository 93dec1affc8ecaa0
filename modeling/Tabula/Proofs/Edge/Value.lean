import Mathlib.Data.String.Basic
import Tabula.Edge.Value
import Tabula.Proofs.Lists

/-!
# The order of values

`compareValues` is a total preorder of all values, however deep they are nested: comparing the
other way round gives the opposite answer, and no three values go round in a circle (`Acyclic`),
which a lexicographic order takes over from the orders of its components. Scalars that compare
equal are told apart by nothing (`valueKey_eq_of_compareValues`).
-/

set_option autoImplicit false

namespace Tabula

/-! ## Orders without circles -/

/-- Whether three comparisons around a circle can only all say that nothing is greater when they
all say that everything is equal. -/
def Acyclic (ab bc ca : Ordering) : Prop :=
  ab.isLE → bc.isLE → ca.isLE → ab = .eq ∧ bc = .eq ∧ ca = .eq

namespace Acyclic

theorem of_transCmp {α : Type} (cmp : α → α → Ordering) [Std.TransCmp cmp] (a b c : α) :
    Acyclic (cmp a b) (cmp b c) (cmp c a) := by
  intro hab hbc hca
  have hac : (cmp a c).isLE := Std.TransCmp.isLE_trans hab hbc
  have hba : (cmp b a).isLE := Std.TransCmp.isLE_trans hbc hca
  have hcb : (cmp c b).isLE := Std.TransCmp.isLE_trans hca hab
  exact ⟨Std.OrientedCmp.isLE_antisymm hab hba, Std.OrientedCmp.isLE_antisymm hbc hcb,
    Std.OrientedCmp.isLE_antisymm hca hac⟩

theorem isLE_left {o p : Ordering} (h : (o.then p).isLE) : o.isLE := by
  cases o with
  | lt => rfl
  | eq => rfl
  | gt => cases h

/-- A lexicographic order has no circles when its components have none. -/
theorem lex {ab bc ca ab' bc' ca' : Ordering} (h : Acyclic ab bc ca)
    (h' : Acyclic ab' bc' ca') : Acyclic (ab.then ab') (bc.then bc') (ca.then ca') := by
  intro hab hbc hca
  -- the first components can only be equal, so the second ones decide
  obtain ⟨rfl, rfl, rfl⟩ := h (isLE_left hab) (isLE_left hbc) (isLE_left hca)
  exact h' hab hbc hca

end Acyclic

/-! ## Values of different kinds -/

/-- The place of a kind of values: arrays go before objects, which both have the rank 3. -/
def kindPlace : Json → Nat
  | .bool _ => 0
  | .num _ => 1
  | .str _ => 2
  | .arr _ => 3
  | .obj _ => 4
  | .null => 5

theorem compact_arr_lt_obj (items : List Json) (fields : Fields) :
    (Json.arr items).compact < (Json.obj fields).compact := by
  rw [Json.compact, Json.compact, String.lt_iff_toList_lt]
  simp only [String.toList_append]
  exact List.Lex.rel (by decide)

/-- Values of different kinds are in the order of their kinds. -/
theorem compareValues_of_ne {a b : Json} (h : kindPlace a ≠ kindPlace b) :
    compareValues a b = compare (kindPlace a) (kindPlace b) := by
  -- arrays and objects have one rank, and go by the bracket that their texts begin with
  have hlt (items : List Json) (fields : Fields) := compact_arr_lt_obj items fields
  cases a with
  | bool a => cases b <;> first | rfl | exact absurd rfl h
  | num a => cases b <;> first | rfl | exact absurd rfl h
  | str a => cases b <;> first | rfl | exact absurd rfl h
  | null => cases b <;> rfl
  | arr as =>
      cases b with
      | arr bs => exact absurd rfl h
      | obj bs => exact compare_lt_iff_lt.mpr (hlt as bs)
      | _ => rfl
  | obj as =>
      cases b with
      | arr bs => exact compare_gt_iff_gt.mpr (hlt bs as)
      | obj bs => exact absurd rfl h
      | _ => rfl

theorem kindPlace_le {a b : Json} (h : (compareValues a b).isLE) : kindPlace a ≤ kindPlace b := by
  by_cases hk : kindPlace a = kindPlace b
  · exact hk.le
  · rw [compareValues_of_ne hk] at h
    exact Std.isLE_compare.mp h

theorem kindPlace_eq {a b : Json} (h : compareValues a b = .eq) : kindPlace a = kindPlace b := by
  by_contra hk
  rw [compareValues_of_ne hk] at h
  exact hk (Std.LawfulEqCmp.eq_of_compare h)

/-! ## A total preorder -/

mutual

theorem swap_compareValues : ∀ a b : Json, compareValues a b = (compareValues b a).swap
  | a, b => by
      by_cases hk : kindPlace a = kindPlace b
      · match a, b, hk with
        | .bool a, .bool b, _ =>
            exact (Std.OrientedCmp.eq_swap : compare a b = (compare b a).swap)
        | .num a, .num b, _ =>
            exact (Std.OrientedCmp.eq_swap :
              compare a.orderKey b.orderKey = (compare b.orderKey a.orderKey).swap)
        | .str a, .str b, _ =>
            exact (Std.OrientedCmp.eq_swap : compare a b = (compare b a).swap)
        | .arr as, .arr bs, _ => exact swap_compareItems as bs
        | .obj fs, .obj gs, _ =>
            exact (Std.OrientedCmp.eq_swap : compare (Json.obj fs).compact (Json.obj gs).compact
              = (compare (Json.obj gs).compact (Json.obj fs).compact).swap)
        | .null, .null, _ => rfl
      · rw [compareValues_of_ne hk, compareValues_of_ne (Ne.symm hk)]
        exact Std.OrientedCmp.eq_swap

theorem swap_compareItems : ∀ as bs : List Json, compareItems as bs = (compareItems bs as).swap
  | [], [] => rfl
  | [], _ :: _ => rfl
  | _ :: _, [] => rfl
  | a :: as, b :: bs => by
      rw [compareItems, compareItems, Ordering.swap_then, ← swap_compareValues a b,
        ← swap_compareItems as bs]

end

mutual

theorem acyclic_compareValues :
    ∀ a b c : Json, Acyclic (compareValues a b) (compareValues b c) (compareValues c a)
  | a, b, c => by
      intro hab hbc hca
      -- around a circle the kinds can not go up, so they are the same
      have h1 := kindPlace_le hab
      have h2 := kindPlace_le hbc
      have h3 := kindPlace_le hca
      have hkb : kindPlace a = kindPlace b := by omega
      have hkc : kindPlace a = kindPlace c := by omega
      clear h1 h2 h3
      match a, b, c, hkb, hkc with
      | .bool a, .bool b, .bool c, _, _ => exact Acyclic.of_transCmp compare a b c hab hbc hca
      | .num a, .num b, .num c, _, _ =>
          exact Acyclic.of_transCmp compare a.orderKey b.orderKey c.orderKey hab hbc hca
      | .str a, .str b, .str c, _, _ => exact Acyclic.of_transCmp compare a b c hab hbc hca
      | .arr as, .arr bs, .arr cs, _, _ => exact acyclic_compareItems as bs cs hab hbc hca
      | .obj fs, .obj gs, .obj hs, _, _ =>
          exact Acyclic.of_transCmp compare (Json.obj fs).compact (Json.obj gs).compact
            (Json.obj hs).compact hab hbc hca
      | .null, .null, .null, _, _ => exact ⟨rfl, rfl, rfl⟩

theorem acyclic_compareItems :
    ∀ as bs cs : List Json, Acyclic (compareItems as bs) (compareItems bs cs) (compareItems cs as)
  | [], [], [] => fun _ _ _ => ⟨rfl, rfl, rfl⟩
  | a :: as, b :: bs, c :: cs =>
      (acyclic_compareValues a b c).lex (acyclic_compareItems as bs cs)
  -- where the lengths differ, some list goes before a shorter one
  | [], [], _ :: _ => fun _ _ h => nomatch h
  | [], _ :: _, [] => fun _ h _ => nomatch h
  | _ :: _, [], [] => fun h _ _ => nomatch h
  | [], _ :: _, _ :: _ => fun _ _ h => nomatch h
  | _ :: _, [], _ :: _ => fun h _ _ => nomatch h
  | _ :: _, _ :: _, [] => fun _ h _ => nomatch h

end

instance : Std.TransCmp compareValues where
  eq_swap := swap_compareValues _ _
  isLE_trans {a b c} hab hbc := by
    cases hca : compareValues c a with
    | gt =>
        rw [swap_compareValues a c, hca]
        rfl
    | eq =>
        rw [swap_compareValues a c, hca]
        rfl
    | lt =>
        -- a circle that goes up somewhere
        obtain ⟨-, -, heq⟩ := acyclic_compareValues a b c hab hbc (by rw [hca]; rfl)
        rw [hca] at heq
        cases heq

/-! ## Numbers at one place -/

namespace Double

theorem eq_of_toBits {x y : Float} (h : x.toBits = y.toBits) : x = y := by
  obtain ⟨bitsx, hx⟩ := x
  obtain ⟨bitsy, hy⟩ := y
  have hbits : bitsx = bitsy := h
  subst hbits
  rfl

/-- Away from zero, a double is its place on the number line. -/
theorem eq_of_orderKey {x y : Float} (h : orderKey x = orderKey y) (hx : orderKey x ≠ 0) :
    x = y := by
  have hltx := x.toBits.toNat_lt
  have hlty := y.toBits.toNat_lt
  refine eq_of_toBits (UInt64.toNat_inj.mp ?_)
  simp only [orderKey, show Nat.pow 2 63 = 9223372036854775808 from rfl] at h hx
  -- equal places have equal signs, unless both are zero
  split at hx
  next hposx =>
      rw [if_pos hposx] at h
      split at h
      next => omega
      next => omega
  next hnegx =>
      rw [if_neg hnegx] at h
      split at h
      next => omega
      next => omega

/-- At zero stand the two zeros. -/
theorem integer?_of_orderKey_eq_zero {x : Float} (h : orderKey x = 0) : integer? x = some 0 := by
  have hzero {b : Binary} (hm : b.mantissa = 0) : b.integer? = some 0 := by
    cases hn : b.negative with
    | true => simp [Binary.integer?, Binary.signed, hm, hn]
    | false => simp [Binary.integer?, Binary.signed, hm, hn]
  -- only the sign may be set in the bits of a zero
  have hbits : x.toBits = 0 ∨ x.toBits = 9223372036854775808 := by
    have hlt := x.toBits.toNat_lt
    simp only [orderKey, show Nat.pow 2 63 = 9223372036854775808 from rfl] at h
    split at h
    next =>
        refine Or.inl (UInt64.toNat_inj.mp ?_)
        show x.toBits.toNat = 0
        omega
    next =>
        refine Or.inr (UInt64.toNat_inj.mp ?_)
        show x.toBits.toNat = 9223372036854775808
        omega
  rcases hbits with hpos | hneg
  · obtain rfl : x = Float.ofBits 0 := eq_of_toBits hpos
    exact (if_pos (by decide)).trans (hzero (by decide))
  · obtain rfl : x = Float.ofBits 9223372036854775808 := eq_of_toBits hneg
    exact (if_pos (by decide)).trans (hzero (by decide))

end Double

/-- Doubles at one place of the number line yield one number. -/
theorem Number.ofComputed?_of_orderKey {x y : Float} (h : Double.orderKey x = Double.orderKey y) :
    ofComputed? x = ofComputed? y := by
  by_cases hx : Double.orderKey x = 0
  · have hy : Double.orderKey y = 0 := by rw [← h, hx]
    simp [ofComputed?, Double.integer?_of_orderKey_eq_zero hx,
      Double.integer?_of_orderKey_eq_zero hy]
  · rw [Double.eq_of_orderKey h hx]

/-! ## Scalars -/

def Json.isScalar : Json → Bool
  | .bool _ | .num _ | .str _ => true
  | _ => false

/-- **Scalars that compare equal are one value**, whichever way their number is written. -/
theorem valueKey_eq_of_compareValues {a b : Json} (ha : a.isScalar = true)
    (h : compareValues a b = .eq) : valueKey a = valueKey b := by
  have hk := kindPlace_eq h
  match a, b, hk with
  | .bool a, .bool b, _ =>
      obtain rfl : a = b := Std.LawfulEqCmp.eq_of_compare (show compare a b = .eq from h)
      rfl
  | .num a, .num b, _ =>
      have hplace : a.orderKey = b.orderKey :=
        Std.LawfulEqCmp.eq_of_compare (show compare a.orderKey b.orderKey = .eq from h)
      rw [valueKey, valueKey, Json.ofComputed, Json.ofComputed,
        Number.ofComputed?_of_orderKey hplace]
  | .str a, .str b, _ =>
      obtain rfl : a = b := Std.LawfulEqCmp.eq_of_compare (show compare a b = .eq from h)
      rfl
  | .arr _, _, _ => cases ha
  | .obj _, _, _ => cases ha
  | .null, _, _ => cases ha

theorem compareValues_eq_lt {a b : Json} (ha : a.isScalar = true)
    (hkey : valueKey a ≠ valueKey b) (hle : (compareValues a b).isLE) :
    compareValues a b = .lt := by
  cases hc : compareValues a b with
  | lt => rfl
  | eq => exact absurd (valueKey_eq_of_compareValues ha hc) hkey
  | gt =>
      rw [hc] at hle
      cases hle

end Tabula
