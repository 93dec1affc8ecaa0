import Tabula.Proofs.Result.Matrices

/-!
# Nested arrays

The cells of a matrix stand in the order in which the coordinates of its cube are listed
(`map_place_coordinates`). As JSON they are nested arrays, one level for each dimension, and
following the components of a coordinate from the outermost array on ends at the cell of that
coordinate (`cell?_toJson`).
-/

set_option autoImplicit false

namespace Tabula

/-- The element of nested arrays at a coordinate, the outermost component first. -/
def Json.cell? : List Nat → Json → Option Json
  | [], v => some v
  | i :: coord, v => (v.at? i).bind (cell? coord)

namespace Matrix

/-! ## Row-major order -/

/-- The places of whole slices, one slice after another. -/
theorem flatMap_range_add (d n : Nat) :
    ((List.range d).flatMap fun i => (List.range n).map (i * n + ·)) = List.range (d * n) := by
  induction d with
  | zero => simp
  | succ d ih =>
      rw [List.range_succ, List.flatMap_append, ih, List.flatMap_singleton, Nat.succ_mul,
        List.range_add]

/-- **The coordinates of a cube are listed in the order of their places.** -/
theorem map_place_coordinates (dims : List Nat) :
    (coordinates dims).map (place dims) = List.range (volume dims) := by
  induction dims with
  | nil => rfl
  | cons d dims ih =>
      calc
        (coordinates (d :: dims)).map (place (d :: dims))
            = (List.range d).flatMap fun i =>
                (coordinates dims).map fun coord => i * volume dims + place dims coord := by
              rw [coordinates, List.map_flatMap]
              refine List.flatMap_congr fun i _ => ?_
              rw [List.map_map]
              rfl
        _ = (List.range d).flatMap fun i =>
              (List.range (volume dims)).map (i * volume dims + ·) := by
              refine List.flatMap_congr fun i _ => ?_
              rw [← ih, List.map_map]
              rfl
        _ = List.range (volume (d :: dims)) := flatMap_range_add d (volume dims)

theorem length_coordinates (dims : List Nat) : (coordinates dims).length = volume dims := by
  have hlength := congrArg List.length (map_place_coordinates dims)
  rwa [List.length_map, List.length_range] at hlength

variable {dims coord : List Nat}

/-- The place of a coordinate is where it is listed. -/
theorem place_of_getElem?_coordinates {k : Nat} (h : (coordinates dims)[k]? = some coord) :
    place dims coord = k := by
  have hk : k < volume dims := by
    rw [← length_coordinates]
    exact (List.getElem?_eq_some_iff.mp h).1
  have hplace := congrArg (fun places : List Nat => places[k]?) (map_place_coordinates dims)
  simp only [List.getElem?_map, h, Option.map_some, List.getElem?_range hk] at hplace
  exact Option.some.inj hplace

theorem getElem?_coordinates_place (hc : inside dims coord = true) :
    (coordinates dims)[place dims coord]? = some coord := by
  obtain ⟨k, hk⟩ := List.getElem?_of_mem (mem_coordinates.mpr hc)
  rw [place_of_getElem?_coordinates hk, hk]

/-! ## Nesting -/

theorem getElem?_pieces (f : List Json → Json) (length : Nat) {n i : Nat} (hi : i < n)
    (cells : List Json) :
    (pieces f length n cells)[i]? = some (f ((cells.drop (i * length)).take length)) := by
  induction n generalizing i cells with
  | zero => omega
  | succ n ih =>
      rw [pieces]
      cases i with
      | zero => rw [List.getElem?_cons_zero, Nat.zero_mul, List.drop_zero]
      | succ i =>
          rw [List.getElem?_cons_succ, ih (by omega), List.drop_drop, Nat.succ_mul, Nat.add_comm]

/-- **Nested arrays hold each cell at its coordinate.** -/
theorem cell?_nest (hne : dims ≠ []) {cells : List Json} (hlength : cells.length = volume dims)
    (hc : inside dims coord = true) :
    (nest dims cells).cell? coord = cells[place dims coord]? := by
  -- on the dimensions: the first component chooses a slice, the others a cell of it
  induction dims generalizing cells coord with
  | nil => exact absurd rfl hne
  | cons d dims ih =>
      cases coord with
      | nil => simp [inside] at hc
      | cons i coord =>
          obtain ⟨hi, hrest⟩ : i < d ∧ inside dims coord = true := by
            simpa only [inside, Bool.and_eq_true, decide_eq_true_eq] using hc
          cases dims with
          | nil =>
              cases coord with
              | nil =>
                  have hplace : place [d] [i] = i := Nat.mul_one i
                  rw [hplace, nest, Json.cell?, Json.at?]
                  cases cells[i]? <;> rfl
              | cons j coord => simp [inside] at hrest
          | cons d' dims =>
              have hplace := place_lt_volume hrest
              have hvolume : volume (d' :: dims) ≠ 0 := by omega
              have hcells : cells.length = d * volume (d' :: dims) := hlength
              have hslice : i * volume (d' :: dims) + volume (d' :: dims)
                  ≤ d * volume (d' :: dims) := by
                rw [← Nat.succ_mul]
                exact Nat.mul_le_mul_right _ hi
              rw [nest, if_neg hvolume, Json.cell?, Json.at?, getElem?_pieces _ _ hi,
                Option.bind_some, ih (by simp) _ hrest, List.getElem?_take_of_lt hplace,
                List.getElem?_drop]
              · rfl
              · rw [List.length_take, List.length_drop]
                omega
              · simp

/-- **A matrix as JSON holds each value at its coordinate.** -/
theorem cell?_toJson {m : Matrix} (hm : Whole dims m) (hc : inside dims coord = true) :
    m.toJson.cell? coord = some (m.cellAt coord).value := by
  have hcell : (m.cells.toList.map (·.value))[place dims coord]? = some (m.cellAt coord).value := by
    have hlt := place_lt_size hm hc
    rw [List.getElem?_map, Array.getElem?_toList, cellAt, cell, hm.dims_eq,
      Array.getElem?_eq_getElem hlt]
    rfl
  have hlength : (m.cells.toList.map (·.value)).length = volume dims := by
    rw [List.length_map, Array.length_toList, hm.size_eq]
  unfold toJson
  rw [hm.dims_eq]
  -- without dimensions the one value stands alone
  cases dims with
  | nil =>
      cases coord with
      | nil =>
          have hhead : (m.cells.toList.map (·.value)).head? = some (m.cellAt []).value := by
            rw [List.head?_eq_getElem?]
            exact hcell
          show some (((m.cells.toList.map (·.value)).head?).getD .null) = _
          rw [hhead, Option.getD_some]
      | cons i coord => simp [inside] at hc
  | cons d dims => exact (cell?_nest (by simp) hlength hc).trans hcell

end Matrix

end Tabula
