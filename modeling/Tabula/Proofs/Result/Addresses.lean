import Mathlib.Algebra.BigOperators.Group.List.Basic
import Mathlib.Data.List.Nodup
import Tabula.Proofs.Result.Nesting

/-!
# Addresses of cells

Whatever is written into a matrix, and whatever is refused, it stays whole (`whole_after`): a cell
for each coordinate in range, which are those that `coordinates` lists, each once, at its place. So
reading, writing and indexing the nested arrays all address one cell (`addressed`), and what is out
of range addresses none. A cube of more cells than a list can hold gets no matrix in the first place
(`new_eq_ok_iff`).
-/

set_option autoImplicit false

namespace Tabula.Matrix

/-! ## Calls -/

structure Call where
  coord : List Nat
  value : Json
  aggregate : Aggregate

/-- A matrix after a call, which leaves it as it is when it fails. -/
def call (m : Matrix) (c : Call) : Matrix :=
  match m.merge c.coord c.value c.aggregate with
  | .ok m' => m'
  | .error _ => m

def after (m : Matrix) (calls : List Call) : Matrix := calls.foldl call m

def outside (dims coord : List Nat) : QueryError :=
  .formatting (Text.natList coord)
    ("coordinate outside of cube with dimensions " ++ Text.natList dims)

section Calls

variable {dims coord : List Nat} {m : Matrix}

theorem offset_outside (hm : Whole dims m) (hc : ¬ inside dims coord = true) :
    m.offset coord = .error (outside dims coord) := by
  unfold offset
  rw [hm.dims_eq]
  exact if_neg hc

theorem get_outside (hm : Whole dims m) (hc : ¬ inside dims coord = true) :
    m.get coord = .error (outside dims coord) := by
  rw [get, offset_outside hm hc]
  rfl

theorem merge_outside (hm : Whole dims m) (hc : ¬ inside dims coord = true) (value : Json)
    (aggregate : Aggregate) : m.merge coord value aggregate = .error (outside dims coord) := by
  rw [merge, offset_outside hm hc]
  rfl

theorem call_outside (hm : Whole dims m) {c : Call} (hc : ¬ inside dims c.coord = true) :
    m.call c = m := by
  rw [call, merge_outside hm hc]

/-- **A call keeps a matrix whole**, also when it fails. -/
theorem whole_call (hm : Whole dims m) (c : Call) : Whole dims (m.call c) := by
  by_cases hc : inside dims c.coord = true
  · obtain ⟨m', hmerge, hwhole, -⟩ := merge_total hm hc c.value c.aggregate
    rwa [call, hmerge]
  · rwa [call_outside hm hc]

/-- **Calls keep a matrix whole**, however many there are. -/
theorem whole_after (hm : Whole dims m) (calls : List Call) : Whole dims (m.after calls) := by
  induction calls generalizing m with
  | nil => exact hm
  | cons c calls ih => exact ih (whole_call hm c)

end Calls

/-! ## Coordinates -/

theorem volume_eq_prod (dims : List Nat) : volume dims = dims.prod := List.prod_eq_foldr.symm

/-- A matrix is made exactly when a list can hold as many cells as there are coordinates. -/
theorem new_eq_ok_iff_prod {dims : List Nat} {fill : Json} {m : Matrix} :
    new dims fill = .ok m ↔ dims.prod ≤ capacity ∧ m = filled dims fill := by
  rw [new_eq_ok_iff, volume_eq_prod]

/-- **No coordinate is listed twice.** -/
theorem nodup_coordinates (dims : List Nat) : (coordinates dims).Nodup := by
  refine List.Nodup.of_map (place dims) ?_
  rw [map_place_coordinates]
  exact List.nodup_range

/-- **A matrix is addressed faithfully**, after any calls. It is made when a list can hold its
cells, with the same value in each. The coordinates with a component below each dimension are those
that are listed, each once, and the offset of each is where it is listed. Writing there changes the
one cell, and what is read there stands at the same place of the nested arrays. At any other
coordinate nothing is read or written. -/
theorem addressed (dims : List Nat) (fill : Json) (calls : List Call) :
    let m := (filled dims fill).after calls
    (∀ made, new dims fill = .ok made ↔ dims.prod ≤ capacity ∧ made = filled dims fill)
      ∧ (coordinates dims).Nodup ∧ (coordinates dims).length = dims.prod
      ∧ (∀ coord, coord ∈ coordinates dims ↔ List.Forall₂ (fun d i => i < d) dims coord)
      ∧ (∀ k coord, (coordinates dims)[k]? = some coord → m.offset coord = .ok k)
      ∧ (∀ coord ∈ coordinates dims, ∀ value aggregate,
        ∃ m', m.merge coord value aggregate = .ok m' ∧ m'.dims = m.dims
          ∧ m'.get coord = .ok ((m.cellAt coord).write value aggregate).value
          ∧ ∀ other ∈ coordinates dims, m'.cellAt other
            = if other = coord then (m.cellAt coord).write value aggregate else m.cellAt other)
      ∧ (∀ coord ∉ coordinates dims, m.get coord = .error (outside dims coord)
        ∧ ∀ value aggregate, m.merge coord value aggregate = .error (outside dims coord)
          ∧ m.call { coord, value, aggregate } = m)
      ∧ ∀ coord ∈ coordinates dims, m.get coord = .ok (m.cellAt coord).value
        ∧ m.toJson.cell? coord = some (m.cellAt coord).value := by
  intro m
  have hm : Whole dims m := whole_after (whole_filled dims fill) calls
  refine ⟨fun made => new_eq_ok_iff_prod, nodup_coordinates dims, ?_,
    fun coord => mem_coordinates.trans inside_iff, ?_, ?_, ?_, ?_⟩
  · rw [length_coordinates, volume_eq_prod]
  · intro k coord hk
    have hc : inside dims coord = true := mem_coordinates.mp (List.mem_of_getElem? hk)
    rw [offset_eq hm hc, place_of_getElem?_coordinates hk]
  · intro coord hcoord value aggregate
    have hc := mem_coordinates.mp hcoord
    obtain ⟨m', hmerge, hwhole, hcells⟩ := merge_total hm hc value aggregate
    refine ⟨m', hmerge, hwhole.dims_eq.trans hm.dims_eq.symm, ?_, fun other hother => ?_⟩
    · rw [get_eq hwhole hc, hcells coord hc, if_pos rfl]
    · exact hcells other (mem_coordinates.mp hother)
  · intro coord hcoord
    have hc : ¬ inside dims coord = true := mt mem_coordinates.mpr hcoord
    refine ⟨get_outside hm hc, fun value aggregate => ⟨merge_outside hm hc value aggregate, ?_⟩⟩
    exact call_outside hm (c := { coord, value, aggregate }) hc
  · intro coord hcoord
    have hc := mem_coordinates.mp hcoord
    exact ⟨get_eq hm hc, cell?_toJson hm hc⟩

/-- Some calls, two of which are out of range. -/
def someCalls : List Call :=
  [{ coord := [1, 2], value := .nat 5, aggregate := .sum },
    { coord := [2, 0], value := .nat 1, aggregate := .sum },
    { coord := [1], value := .nat 1, aggregate := .sum },
    { coord := [1, 2], value := .nat 2, aggregate := .max }]

theorem addressed_someCalls : [1, 2] ∈ coordinates [2, 3] ∧ [2, 0] ∉ coordinates [2, 3]
    ∧ ((filled [2, 3] (.nat 0)).after someCalls).offset [1, 2] = .ok 5
    ∧ ((filled [2, 3] (.nat 0)).after someCalls).get [1, 2] = .ok (.nat 5)
    ∧ ((filled [2, 3] (.nat 0)).after someCalls).toJson.cell? [1, 2] = some (.nat 5)
    ∧ ((filled [2, 3] (.nat 0)).after someCalls).get [2, 0] = .error (outside [2, 3] [2, 0]) := by
  obtain ⟨-, -, -, -, hoffset, -, houtside, hread⟩ := addressed [2, 3] (.nat 0) someCalls
  have hin : [1, 2] ∈ coordinates [2, 3] := by decide
  have hout : [2, 0] ∉ coordinates [2, 3] := by decide
  have hcell : (((filled [2, 3] (.nat 0)).after someCalls).cellAt [1, 2]).value = .nat 5 := rfl
  obtain ⟨hget, hindex⟩ := hread [1, 2] hin
  rw [hcell] at hget hindex
  exact ⟨hin, hout, hoffset 5 [1, 2] rfl, hget, hindex, (houtside [2, 0] hout).1⟩

end Tabula.Matrix
