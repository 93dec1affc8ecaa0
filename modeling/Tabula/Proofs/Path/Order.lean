import Tabula.Path

/-!
# Nested paths in order

`Path.contains` says which documents lie inside which, and `Path.compareDepth` in which order
they are entered. The order is total and tells all paths apart. On well-formed paths it agrees
with the nesting: what lies strictly below a path is deeper (`StrictlyBelow.depth_lt`).
-/

set_option autoImplicit false

namespace Tabula.Path

/-! ## The order of depths -/

instance : Std.TransCmp compareDepth :=
  inferInstanceAs (Std.TransCmp (compareLex (compareOn depth)
    (compare : String → String → Ordering)))

instance : Std.LawfulEqCmp compareDepth where
  eq_of_compare {a b} h := by
    have h2 := (Ordering.then_eq_eq.mp h).2
    exact Std.LawfulEqOrd.eq_of_compare h2

/-! ## Nesting -/

theorem dropOuter?_eq_some {outer path rest : List Char} :
    dropOuter? outer path = some rest ↔ path = outer ++ '.' :: rest := by
  induction outer generalizing path with
  | nil =>
      cases path with
      | nil => simp [dropOuter?]
      | cons c path =>
          by_cases hc : c = '.'
          · simp [dropOuter?, hc]
          · simp [dropOuter?, hc]
  | cons a outer ih =>
      cases path with
      | nil => simp [dropOuter?]
      | cons b path =>
          by_cases hab : a = b
          · simp [dropOuter?, hab, ih]
          · simp [dropOuter?, hab, Ne.symm hab]

theorem below?_eq_some {outer path rest : String} :
    below? outer path = some rest ↔ path.toList = outer.toList ++ '.' :: rest.toList := by
  rw [below?, Option.map_eq_some_iff]
  constructor
  · rintro ⟨cs, hcs, rfl⟩
    simpa using dropOuter?_eq_some.mp hcs
  · intro h
    exact ⟨rest.toList, dropOuter?_eq_some.mpr h, by simp⟩

/-- A path contains what begins with it and a dot. -/
theorem contains_iff {outer path : String} :
    contains outer path = true
      ↔ outer = root ∨ path = outer
        ∨ ∃ rest : String, path.toList = outer.toList ++ '.' :: rest.toList := by
  simp only [contains, Bool.or_eq_true, beq_iff_eq, Option.isSome_iff_exists, below?_eq_some,
    or_assoc]

/-- The names between the dots of a path are not empty; the root has no names. -/
def WellFormed (path : String) : Prop := path = root ∨ ∀ name ∈ names path, name ≠ ""

/-- Inside of a path, but not the path itself. -/
def StrictlyBelow (outer path : String) : Prop := contains outer path = true ∧ path ≠ outer

/-- One of two paths contains the other. -/
def Comparable (p q : String) : Prop := contains p q = true ∨ contains q p = true

instance (p q : String) : Decidable (Comparable p q) := inferInstanceAs (Decidable (_ ∨ _))

theorem WellFormed.ne_empty {path : String} (h : WellFormed path) : path ≠ "" := by
  rintro rfl
  rcases h with h | h
  · exact absurd h (by decide)
  · exact h "" (by decide) rfl

theorem StrictlyBelow.depth_lt {outer path : String} (h : StrictlyBelow outer path)
    (ho : WellFormed outer) : depth outer < depth path := by
  obtain ⟨hc, hne⟩ := h
  rcases contains_iff.mp hc with rfl | heq | ⟨rest, hrest⟩
  · simp [depth, hne]
  · exact absurd heq hne
  · by_cases hor : outer = root
    · subst hor
      simp [depth, hne]
    · have hpr : path ≠ root := by
        rintro rfl
        have hlen := congrArg List.length hrest
        have hpos : outer.toList ≠ [] := by
          intro hnil
          exact ho.ne_empty (String.toList_inj.mp (by simpa using hnil))
        have := List.length_pos_iff.mpr hpos
        simp only [root, List.length_append, List.length_cons] at hlen
        simp at hlen
        omega
      simp only [depth, hor, hpr, if_false, hrest, List.count_append, List.count_cons]
      simp

end Tabula.Path
