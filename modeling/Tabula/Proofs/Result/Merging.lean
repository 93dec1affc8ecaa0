import Tabula.Proofs.Result.Matrices

/-!
# Writing many values

Values that are written at their coordinates, one after another, are combined cell by cell: each
cell takes the values of its coordinate, in their order, and no others (`mergeAll_total`). Null is
the result over no documents, so a cell holds what combining its values with null yields
(`mergeAll_filled`).
-/

set_option autoImplicit false

namespace Tabula

/-! ## Null -/

theorem Json.eq_null_of_isNull {v : Json} (h : v.isNull = true) : v = .null := by
  cases v with
  | null => rfl
  | _ => cases h

theorem Json.isNull_eq_false {v : Json} (h : v ≠ .null) : v.isNull = false :=
  Bool.eq_false_iff.mpr (mt Json.eq_null_of_isNull h)

theorem combine_null_left (a : Aggregate) (v : Json) : a.combine .null v = v := rfl

theorem combine_null_right (a : Aggregate) (v : Json) : a.combine v .null = v := by
  unfold Aggregate.combine
  split
  next hnull => exact (Json.eq_null_of_isNull hnull).symm
  next => rfl

/-! ## One cell -/

namespace Cell

/-- A cell that was written before goes on combining. -/
theorem foldl_write (aggregate : Aggregate) (values : List Json) (value : Json) :
    values.foldl (fun (cell : Cell) v => cell.write v aggregate) { value, written := true }
      = { value := values.foldl aggregate.combine value, written := true } := by
  induction values generalizing value with
  | nil => rfl
  | cons v values ih => exact ih (aggregate.combine value v)

/-- The first value of a cell replaces the default, and the others are combined with it. -/
theorem foldl_write_cons (aggregate : Aggregate) (default value : Json) (values : List Json) :
    (value :: values).foldl (fun (cell : Cell) v => cell.write v aggregate)
        { value := default, written := false }
      = { value := values.foldl aggregate.combine value, written := true } :=
  foldl_write aggregate values value

/-- A cell after some values, whatever it held before the first of them. -/
theorem value_foldl_write (aggregate : Aggregate) {values : List Json} (hne : values ≠ [])
    (default : Json) :
    (values.foldl (fun (cell : Cell) v => cell.write v aggregate)
      { value := default, written := false }).value = values.foldl aggregate.combine .null := by
  obtain ⟨v, rest, rfl⟩ := List.exists_cons_of_ne_nil hne
  rw [foldl_write_cons, List.foldl_cons, combine_null_left]

end Cell

/-! ## Matrices -/

namespace Matrix

def mergeAll (a : Aggregate) (writes : List (List Nat × Json)) (m : Matrix) : QueryResult Matrix :=
  writes.foldlM (fun m write => m.merge write.1 write.2 a) m

def valuesAt (writes : List (List Nat × Json)) (coord : List Nat) : List Json :=
  (writes.filter (·.1 = coord)).map (·.2)

variable {dims : List Nat} {writes : List (List Nat × Json)}

/-- **Each cell takes the values of its coordinate** and no others. -/
theorem mergeAll_total (a : Aggregate) {m : Matrix} (hm : Whole dims m)
    (hwrites : ∀ write ∈ writes, inside dims write.1 = true) :
    ∃ m', mergeAll a writes m = .ok m' ∧ Whole dims m'
      ∧ ∀ coord, inside dims coord = true → m'.cellAt coord
        = (valuesAt writes coord).foldl (fun cell v => cell.write v a) (m.cellAt coord) := by
  induction writes generalizing m with
  | nil => exact ⟨m, rfl, hm, fun _ _ => rfl⟩
  | cons write writes ih =>
      obtain ⟨hwrite, hwrites⟩ := List.forall_mem_cons.mp hwrites
      obtain ⟨mid, hmid, hwhole, hcells⟩ := merge_total hm hwrite write.2 a
      obtain ⟨m', hm', hwhole', hcells'⟩ := ih hwhole hwrites
      refine ⟨m', ?_, hwhole', fun coord hcoord => ?_⟩
      · rw [mergeAll, List.foldlM_cons, hmid]
        exact hm'
      · rw [hcells' coord hcoord, hcells coord hcoord, valuesAt, valuesAt, List.filter_cons]
        by_cases heq : write.1 = coord
        · rw [if_pos heq.symm, if_pos (decide_eq_true heq), heq]
          rfl
        · rw [if_neg (Ne.symm heq), if_neg (by simpa using heq)]

/-- **A coordinate of a matrix into which values were written** holds what they combine to, and
the default where there are none. -/
theorem mergeAll_filled (a : Aggregate) (fill : Json)
    (hwrites : ∀ write ∈ writes, inside dims write.1 = true) :
    ∃ m, mergeAll a writes (filled dims fill) = .ok m
      ∧ ∀ coord, inside dims coord = true → m.get coord
        = .ok (if valuesAt writes coord = [] then fill
          else (valuesAt writes coord).foldl a.combine .null) := by
  obtain ⟨m, hm, hwhole, hcells⟩ := mergeAll_total a (whole_filled dims fill) hwrites
  refine ⟨m, hm, fun coord hcoord => ?_⟩
  rw [get_eq hwhole hcoord, hcells coord hcoord, cellAt_filled fill hcoord]
  split
  next hnil => rw [hnil, List.foldl_nil]
  next hne => rw [Cell.value_foldl_write a hne]

end Matrix

end Tabula
