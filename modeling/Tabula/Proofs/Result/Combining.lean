import Tabula.Proofs.Result.Agreement

/-!
# Aggregates that are not combined

The average of two groups of documents does not follow from their averages, and so it is null where
two rows belong to one cell. But null is also the result over no documents, to which the next row is
added as if nothing had been there. So null and values alternate: a cell is null after an even
number of values, and holds the last one after an odd number (`foldl_combine`). That is so in the
cells of a matrix, and in the groups of rows (`combined_alternates`).
-/

set_option autoImplicit false

namespace Tabula

/-! ## One cell -/

/-- The aggregates of which two results make none. -/
def Aggregate.uncombined : List Aggregate :=
  [.avg, .std, .var, .median, .percentile, .cardinality, .stats]

def present (values : List Json) : List Json := values.filter fun v => !v.isNull

/-- The last of the values that are not null, when their number is odd. -/
def lastOfOdd (values : List Json) : Json :=
  if (present values).length % 2 = 1 then ((present values).getLast?).getD .null else .null

section OneCell

variable {a : Aggregate} {values : List Json} {v : Json}

theorem present_concat (values : List Json) (v : Json) :
    present (values ++ [v]) = if v.isNull then present values else present values ++ [v] := by
  rw [present, List.filter_append, List.filter_singleton]
  cases v.isNull with
  | true => exact List.append_nil _
  | false => rfl

theorem lastOfOdd_eq_null_iff : lastOfOdd values = .null ↔ (present values).length % 2 = 0 := by
  unfold lastOfOdd
  split
  next hodd =>
      refine iff_of_false (fun hnull => ?_) (by omega)
      have hne : present values ≠ [] := by
        intro hnil
        rw [hnil] at hodd
        cases hodd
      have hlast := List.getLast_mem hne
      rw [List.getLast?_eq_getLast_of_ne_nil hne, Option.getD_some] at hnull
      rw [hnull] at hlast
      exact absurd (List.mem_filter.mp hlast).2 (by decide)
  next heven => exact iff_of_true rfl (by omega)

/-- Two results make none. -/
theorem combine_of_present (ha : a ∈ Aggregate.uncombined) {w : Json} (hv : v.isNull = false)
    (hw : w.isNull = false) : a.combine v w = .null := by
  unfold Aggregate.combine
  rw [hv, hw]
  simp only [Aggregate.uncombined, List.mem_cons, List.not_mem_nil, or_false] at ha
  rcases ha with rfl | rfl | rfl | rfl | rfl | rfl | rfl <;> rfl

/-- One more value: what is there gives way to null, and null to what is there. -/
theorem combine_lastOfOdd (ha : a ∈ Aggregate.uncombined) (values : List Json) (v : Json) :
    a.combine (lastOfOdd values) v = lastOfOdd (values ++ [v]) := by
  cases hv : v.isNull with
  | true =>
      obtain rfl := Json.eq_null_of_isNull hv
      rw [combine_null_right, lastOfOdd, lastOfOdd, present_concat, if_pos hv]
  | false =>
      have hconcat : present (values ++ [v]) = present values ++ [v] := by
        rw [present_concat, hv]
        rfl
      -- two present values make null, and the next one starts again
      by_cases hnull : lastOfOdd values = .null
      · have heven := lastOfOdd_eq_null_iff.mp hnull
        have hodd : (present values ++ [v]).length % 2 = 1 := by
          rw [List.length_append, List.length_singleton]
          omega
        rw [hnull, combine_null_left, lastOfOdd, hconcat, if_pos hodd, List.getLast?_concat,
          Option.getD_some]
      · have hvalue : (lastOfOdd values).isNull = false := Json.isNull_eq_false hnull
        have hodd : ¬ (present values).length % 2 = 0 := mt lastOfOdd_eq_null_iff.mpr hnull
        have heven : (present (values ++ [v])).length % 2 = 0 := by
          rw [hconcat, List.length_append, List.length_singleton]
          omega
        rw [combine_of_present ha hvalue hv, lastOfOdd_eq_null_iff.mpr heven]

/-- **Values and null alternate** while values are combined one after another. -/
theorem foldl_combine (ha : a ∈ Aggregate.uncombined) (before values : List Json) :
    values.foldl a.combine (lastOfOdd before) = lastOfOdd (before ++ values) := by
  induction values generalizing before with
  | nil => rw [List.append_nil, List.foldl_nil]
  | cons v values ih =>
      rw [List.foldl_cons, combine_lastOfOdd ha, ih, List.append_assoc, List.singleton_append]

theorem foldl_combine_null (ha : a ∈ Aggregate.uncombined) (values : List Json) :
    values.foldl a.combine .null = lastOfOdd values :=
  foldl_combine ha [] values

end OneCell

/-! ## Matrices -/

namespace Matrix

theorem get_mergeAll {a : Aggregate} (ha : a ∈ Aggregate.uncombined) {dims : List Nat} (fill : Json)
    {writes : List (List Nat × Json)} (hwrites : ∀ write ∈ writes, inside dims write.1 = true) :
    ∃ m, mergeAll a writes (filled dims fill) = .ok m
      ∧ ∀ coord, inside dims coord = true → m.get coord
        = .ok (if valuesAt writes coord = [] then fill else lastOfOdd (valuesAt writes coord)) := by
  obtain ⟨m, hm, hget⟩ := mergeAll_filled a fill hwrites
  refine ⟨m, hm, fun coord hcoord => ?_⟩
  rw [hget coord hcoord, foldl_combine_null ha]

end Matrix

/-! ## Groups -/

namespace Grouping

def rowsAt (rows : List Row) (coord : List Nat) : List Row :=
  (withDocuments rows).filter (·.coord = coord)

theorem getElem?_values_group {p : GroupingPlan} {rows : List Row} {g : Group}
    (hg : g ∈ groups p rows) {i : Nat} {s : PlannedSelect} (hs : p.selects[i]? = some s)
    (ha : s.select.aggregate ∈ Aggregate.uncombined) :
    g.values[i]? = some (lastOfOdd ((rowsAt rows g.coord).map fun row => s.value row.node)) := by
  have hne : (rowsAt rows g.coord).map (fun row => s.value row.node) ≠ [] := by
    obtain ⟨row, hrow, hdocs, hcoord⟩ := exists_group_iff.mp ⟨g, hg, rfl⟩
    have hmem : row ∈ rowsAt rows g.coord := List.mem_filter.mpr
      ⟨List.mem_filter.mpr ⟨hrow, decide_eq_true hdocs⟩, decide_eq_true hcoord⟩
    exact List.ne_nil_of_mem (List.mem_map_of_mem hmem)
  rw [values_of_mem_groups hg, List.getElem?_map, hs, Option.map_some,
    ← foldl_combine_null ha, ← Cell.value_foldl_write _ hne s.select.default, List.foldl_map]
  rfl

end Grouping

/-! ## Both -/

/-- **A cell is null exactly after an even number of values**, in a matrix as in a group of rows,
for the aggregates of which two results make none. After an odd number it holds the last of them. -/
theorem combined_alternates {a : Aggregate} (ha : a ∈ Aggregate.uncombined) :
    (∀ (dims : List Nat) (fill : Json) (writes : List (List Nat × Json)),
        (∀ write ∈ writes, Matrix.inside dims write.1 = true) →
        ∃ m, Matrix.mergeAll a writes (Matrix.filled dims fill) = .ok m
          ∧ ∀ coord, Matrix.inside dims coord = true → m.get coord
            = .ok (if Matrix.valuesAt writes coord = [] then fill
                else lastOfOdd (Matrix.valuesAt writes coord)))
      ∧ (∀ (p : GroupingPlan) (rows : List Row), ∀ g ∈ Grouping.groups p rows,
        ∀ (i : Nat) (s : PlannedSelect), p.selects[i]? = some s → s.select.aggregate = a →
          g.values[i]? = some (lastOfOdd
            ((Grouping.rowsAt rows g.coord).map fun row => s.value row.node)))
      ∧ (∀ values, lastOfOdd values = .null ↔ (present values).length % 2 = 0) := by
  refine ⟨fun dims fill writes hwrites => Matrix.get_mergeAll ha fill hwrites, ?_,
    fun values => lastOfOdd_eq_null_iff⟩
  intro p rows g hg i s hs haggregate
  exact Grouping.getElem?_values_group hg hs (haggregate ▸ ha)

def averages : List (List Nat × Json) :=
  [([0], .nat 2), ([1], .nat 7), ([0], .nat 3), ([0], .null), ([0], .nat 4)]

theorem combined_alternates_averages : Aggregate.avg ∈ Aggregate.uncombined
    ∧ (∀ write ∈ averages, Matrix.inside [2] write.1 = true)
    ∧ ∃ m, Matrix.mergeAll .avg averages (Matrix.filled [2] .null) = .ok m
      ∧ m.get [0] = .ok (.nat 4) ∧ m.get [1] = .ok (.nat 7) := by
  have ha : Aggregate.avg ∈ Aggregate.uncombined := by decide
  have hinside : ∀ write ∈ averages, Matrix.inside [2] write.1 = true := by
    simp [averages, Matrix.inside]
  obtain ⟨m, hm, hget⟩ := (combined_alternates ha).1 [2] .null averages hinside
  exact ⟨ha, hinside, m, hm, hget [0] rfl, hget [1] rfl⟩

/-- The third average is read although the first two were there before. -/
theorem combined_not_null :
    ∃ m, Matrix.mergeAll .avg [([0], .nat 2), ([0], .nat 3), ([0], .nat 4)]
        (Matrix.filled [1] .null) = .ok m
      ∧ m.get [0] = .ok (.nat 4) ∧ (∀ v ∈ [Json.nat 2, .nat 3, .nat 4], v ≠ .null) :=
  ⟨_, rfl, rfl, by simp [Json.nat]⟩

end Tabula
