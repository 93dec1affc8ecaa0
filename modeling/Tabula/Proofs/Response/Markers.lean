import Mathlib.Algebra.Group.Nat.Defs
import Tabula.Proofs.Json.Fields
import Tabula.Response.Node

/-!
# Markers and wrappers

The name of a partition gives back its index (`joinIndex?_joinKey`), as long as the index is a
machine word. Drilling into a node goes through its wrappers to a node without any, so that
drilling again does nothing (`drill_drill`).
-/

set_option autoImplicit false

namespace Tabula

/-! ## Names of partitions -/

namespace Marker

theorem toList_joinKey (i : Nat) :
    (joinKey i).toList = '_' :: 'j' :: 'o' :: 'i' :: 'n' :: '_' :: Nat.toDigits 10 i := by
  have hdigits : (toString i).toList = Nat.toDigits 10 i := by
    rw [Nat.toString_eq_ofList_toDigits, String.toList_ofList]
  rw [joinKey, String.toList_append, hdigits]
  rfl

/-- The name of a partition is read as its index, when that is a machine word. -/
theorem joinIndex?_joinKey_eq (i : Nat) :
    joinIndex? (joinKey i) = if i < Nat.pow 2 64 then some i else none := by
  have hdigits : (Nat.toDigits 10 i).all Char.isDigit = true :=
    List.all_eq_true.mpr fun c hc => Nat.isDigit_of_mem_toDigits (by decide) (by decide) hc
  -- reading the digits is the left fold that `Nat.ofDigitChars` is
  have hvalue : (Nat.toDigits 10 i).foldl (fun n c => n * 10 + (c.toNat - '0'.toNat)) 0 = i := by
    have h10 := Nat.ofDigitChars_ten_toDigits (n := i)
    rw [Nat.ofDigitChars_eq_foldl] at h10
    simp only [Nat.mul_comm 10] at h10
    exact h10
  unfold joinIndex?
  rw [toList_joinKey]
  simp only [hdigits, List.isEmpty_eq_false_iff.mpr Nat.toDigits_ne_nil, hvalue, Bool.not_true,
    Bool.or_false, Bool.false_eq_true, if_false]

/-- **The name of a partition gives back its index.** -/
theorem joinIndex?_joinKey {i : Nat} (h : i < 2 ^ 64) : joinIndex? (joinKey i) = some i :=
  (joinIndex?_joinKey_eq i).trans (if_pos h)

theorem ofName_of_joinIndex? {name : String} {i : Nat} (h : joinIndex? name = some i) :
    ofName name = .join i := by
  unfold ofName
  split
  next => exact absurd h (by simp [show joinIndex? "_filter" = none by decide])
  next => exact absurd h (by simp [show joinIndex? "_nested" = none by decide])
  next => exact absurd h (by simp [show joinIndex? "_match" = none by decide])
  next => exact absurd h (by simp [show joinIndex? "_missing" = none by decide])
  next => exact absurd h (by simp [show joinIndex? "_other" = none by decide])
  next => rw [h]

theorem ofName_joinKey {i : Nat} (h : i < 2 ^ 64) : ofName (joinKey i) = .join i :=
  ofName_of_joinIndex? (joinIndex?_joinKey h)

/-- The name of a partition means the partition, or nothing when its index is too large. -/
theorem ofName_joinKey_or (i : Nat) :
    ofName (joinKey i) = .join i ∨ ofName (joinKey i) = .payload := by
  by_cases h : i < 2 ^ 64
  · exact Or.inl (ofName_joinKey h)
  · have hnone : joinIndex? (joinKey i) = none := (joinIndex?_joinKey_eq i).trans (if_neg h)
    -- the names of the other markers differ from it in their second letter
    have hne {name : String} (hname : name.toList[1]? ≠ some 'j') : joinKey i ≠ name := by
      rintro rfl
      rw [toList_joinKey] at hname
      exact hname rfl
    refine Or.inr ?_
    unfold ofName
    split
    next heq => exact absurd heq (hne (by decide))
    next heq => exact absurd heq (hne (by decide))
    next heq => exact absurd heq (hne (by decide))
    next heq => exact absurd heq (hne (by decide))
    next heq => exact absurd heq (hne (by decide))
    next => rw [hnone]

/-- The name of a marker. What holds no buckets has no name of its own. -/
def key : Marker → String
  | filter => "_filter"
  | nested => "_nested"
  | matched => "_match"
  | missing => "_missing"
  | other => "_other"
  | join i => joinKey i
  | payload => ""

theorem joinKey_inj {i j : Nat} : joinKey i = joinKey j ↔ i = j := by
  constructor
  · intro h
    have hlist := congrArg String.toList h
    rw [toList_joinKey, toList_joinKey] at hlist
    have hdigits : Nat.toDigits 10 i = Nat.toDigits 10 j := by simpa using hlist
    rw [← Nat.ofDigitChars_ten_toDigits (n := i), hdigits, Nat.ofDigitChars_ten_toDigits]
  · rintro rfl
    rfl

end Marker

/-! ## Drilling -/

namespace Response

theorem drillMember_eq (name : String) (fields : Fields) :
    drillMember name fields = (Fields.get? name fields).map drill := by
  induction fields with
  | nil => simp [drillMember, Fields.get?]
  | cons f fields ih =>
      obtain ⟨k, v⟩ := f
      by_cases h : k = name
      · simp [drillMember, Fields.get?, h]
      · simp [drillMember, Fields.get?, h, ih]

theorem drill_obj {fields : Fields} (hf : Fields.get? "_filter" fields = none)
    (hn : Fields.get? "_nested" fields = none) : drill (.obj fields) = .obj fields := by
  simp [drill, drillMember_eq, hf, hn]

theorem drill_filter {fields : Fields} {inner : Json}
    (h : Fields.get? "_filter" fields = some inner) : drill (.obj fields) = drill inner := by
  simp [drill, drillMember_eq, h]

theorem drill_nested {fields : Fields} {inner : Json}
    (hf : Fields.get? "_filter" fields = none) (h : Fields.get? "_nested" fields = some inner) :
    drill (.obj fields) = drill inner := by
  simp [drill, drillMember_eq, hf, h]

mutual

/-- **Drilling goes through all wrappers at once.** -/
theorem drill_drill : ∀ node : Json, drill (drill node) = drill node
  | .obj fields => by
      -- the wrapper of a filter goes first, as in `drill`
      cases hf : Fields.get? "_filter" fields with
      | some inner =>
          rw [drill_filter hf]
          exact drill_drill_member fields "_filter" inner hf
      | none =>
          cases hn : Fields.get? "_nested" fields with
          | some inner =>
              rw [drill_nested hf hn]
              exact drill_drill_member fields "_nested" inner hn
          | none => rw [drill_obj hf hn, drill_obj hf hn]
  | .null => by simp [drill]
  | .bool _ => by simp [drill]
  | .num _ => by simp [drill]
  | .str _ => by simp [drill]
  | .arr _ => by simp [drill]

theorem drill_drill_member : ∀ (fields : List (String × Json)) (name : String) (inner : Json),
    Fields.get? name fields = some inner → drill (drill inner) = drill inner
  | [], _, _ => by simp [Fields.get?]
  | (k, v) :: rest, name, inner => by
      intro h
      by_cases hk : k = name
      · simp only [Fields.get?, hk, if_true, Option.some.injEq] at h
        rw [← h]
        exact drill_drill v
      · simp only [Fields.get?, hk, if_false] at h
        exact drill_drill_member rest name inner h

end

end Response

end Tabula
