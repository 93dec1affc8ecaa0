import Tabula.Proofs.Edge.Value
import Tabula.Proofs.Json.Texts
import Tabula.Proofs.Number.Range
import Tabula.Proofs.Number.Texts

/-!
# Keys of atomic values

Values that are null, booleans, numbers or texts are told apart by their keys just as they
are told apart by comparing them (`valueKey_eq_iff`). The first character of a key tells the kind of
the value (`keyKind_valueKey`), and within a kind the key is read back: numbers by the place of
their double, in whichever way they are written, and texts by their characters.
-/

set_option autoImplicit false

namespace Tabula

/-- Whether a value is atomic: null, a boolean, a number or a text. -/
def Json.isAtomic : Json → Bool
  | .null | .bool _ | .str _ => true
  | .num n => n.isProper
  | .arr _ | .obj _ => false

theorem Number.exists_ofComputed? {x : Float} (h : x.isFinite = true) :
    ∃ n, ofComputed? x = some n := by
  unfold ofComputed?
  split
  next => exact ⟨_, rfl⟩
  next => exact ⟨_, if_pos h⟩

theorem valueKey_num {n : Number} (h : n.isProper = true) :
    ∃ m, Number.ofComputed? n.toFloat = some m ∧ valueKey (.num n) = m.text := by
  obtain ⟨m, hm⟩ := Number.exists_ofComputed? (Number.isFinite_toFloat h)
  refine ⟨m, hm, ?_⟩
  rw [valueKey, Json.ofComputed, hm]
  rfl

/-! ## Kinds -/

/-- The kind of values whose keys begin with a character. -/
def keyKind : List Char → ℕ
  | 't' :: _ | 'f' :: _ => 0
  | '"' :: _ => 2
  | 'n' :: _ => 5
  | _ => 1

/-- What is read as a number is the key of no other kind. -/
theorem keyKind_of_read? {cs : List Char} {q : ℚ} (h : Double.read? cs = some q) :
    keyKind cs = 1 := by
  have hnone {c : Char} {rest : List Char} (hc : c ∈ ['t', 'f', '"', 'n']) :
      Double.read? (c :: rest) = none := by
    simp only [List.mem_cons, List.not_mem_nil, or_false] at hc
    rcases hc with rfl | rfl | rfl | rfl
    all_goals exact Double.read?_eq_none (by decide) (by decide) (by decide) (by decide)
  unfold keyKind
  split
  next => simp [hnone] at h
  next => simp [hnone] at h
  next => simp [hnone] at h
  next => simp [hnone] at h
  next => rfl

/-- **A key tells the kind of its value.** -/
theorem keyKind_valueKey {v : Json} (h : v.isAtomic = true) :
    keyKind (valueKey v).toList = kindPlace v := by
  cases v with
  | null => rfl
  | bool b => cases b <;> rfl
  | num n =>
      obtain ⟨m, hm, hkey⟩ := valueKey_num h
      obtain ⟨q, hq, -⟩ := Number.read?_text hm
      rw [hkey, keyKind_of_read? hq]
      rfl
  | str s =>
      show keyKind (Json.quote s).toList = 2
      rw [Json.toList_quote]
      rfl
  | arr items => cases h
  | obj fields => cases h

/-! ## Keys and comparisons -/

/-- Values that compare equal have one key. -/
theorem valueKey_eq_of_eq {a b : Json} (ha : a.isAtomic = true) (h : compareValues a b = .eq) :
    valueKey a = valueKey b := by
  cases a with
  | null =>
      have hk := kindPlace_eq h
      cases b with
      | null => rfl
      | _ => cases hk
  | arr items => cases ha
  | obj fields => cases ha
  | bool a => exact valueKey_eq_of_compareValues rfl h
  | num n => exact valueKey_eq_of_compareValues rfl h
  | str s => exact valueKey_eq_of_compareValues rfl h

theorem compareValues_eq_of_key {a b : Json} (ha : a.isAtomic = true) (hb : b.isAtomic = true)
    (h : valueKey a = valueKey b) : compareValues a b = .eq := by
  have hk : kindPlace a = kindPlace b := by
    rw [← keyKind_valueKey ha, ← keyKind_valueKey hb, h]
  match a, b, hk with
  | .null, .null, _ => rfl
  | .bool a, .bool b, _ =>
      cases a <;> cases b
      all_goals first | rfl | exact absurd h (by decide)
  | .num m, .num n, _ =>
      obtain ⟨m', hm, hkeym⟩ := valueKey_num ha
      obtain ⟨n', hn, hkeyn⟩ := valueKey_num hb
      have htext : m'.text = n'.text := by rw [← hkeym, ← hkeyn, h]
      exact Std.compare_eq_iff_eq.mpr (Number.orderKey_eq_of_text hm hn htext)
  | .str s, .str t, _ =>
      obtain rfl : s = t := Json.quote_injective h
      exact Std.ReflCmp.compare_self
  | .arr _, _, _ => cases ha
  | .obj _, _, _ => cases ha

/-- **Atomic values have one key just when they compare equal.** -/
theorem valueKey_eq_iff {a b : Json} (ha : a.isAtomic = true) (hb : b.isAtomic = true) :
    valueKey a = valueKey b ↔ compareValues a b = .eq :=
  ⟨compareValues_eq_of_key ha hb, valueKey_eq_of_eq ha⟩

/-- Numbers are compared by the exact values of their doubles. -/
theorem compareValues_num (m n : Number) : compareValues (.num m) (.num n)
    = compare (Double.value m.toFloat) (Double.value n.toFloat) := by
  rw [compareValues, Number.orderKey, Number.orderKey]
  rcases lt_trichotomy (Double.orderKey m.toFloat) (Double.orderKey n.toFloat) with hlt | heq | hgt
  · rw [compare_lt_iff_lt.mpr hlt, compare_lt_iff_lt.mpr (Double.orderKey_lt_iff.mp hlt)]
  · rw [compare_eq_iff_eq.mpr heq, compare_eq_iff_eq.mpr (Double.orderKey_eq_iff.mp heq)]
  · rw [compare_gt_iff_gt.mpr hgt, compare_gt_iff_gt.mpr (Double.orderKey_lt_iff.mp hgt)]

end Tabula
