import Tabula.Proofs.Results
import Tabula.Result.Matrix

/-!
# Coordinates and cells

A coordinate inside a cube has a place of its own among its cells (`place_lt_volume`,
`place_inj`), so that reading and writing there succeed, and writing changes one cell and no other
(`merge_total`). Writing keeps a matrix `Whole`: of the same dimensions, with a cell for each
coordinate.
-/

set_option autoImplicit false

namespace Tabula

namespace Matrix

/-! ## Places -/

theorem inside_iff {dims coord : List Nat} :
    inside dims coord = true ↔ List.Forall₂ (fun d i => i < d) dims coord := by
  induction dims generalizing coord with
  | nil => cases coord <;> simp [inside]
  | cons d dims ih => cases coord <;> simp [inside, ih]

/-- **A coordinate inside a cube has a cell.** -/
theorem place_lt_volume {dims coord : List Nat} (h : inside dims coord = true) :
    place dims coord < volume dims := by
  induction dims generalizing coord with
  | nil =>
      cases coord with
      | nil => exact Nat.one_pos
      | cons c coord => simp [inside] at h
  | cons d dims ih =>
      cases coord with
      | nil => simp [inside] at h
      | cons c coord =>
          simp only [inside, Bool.and_eq_true, decide_eq_true_eq] at h
          -- the place in row-major order: whole slices before the last, then within it
          have hrest := ih h.2
          calc
            place (d :: dims) (c :: coord) = c * volume dims + place dims coord := rfl
            _ < c * volume dims + volume dims := by omega
            _ = (c + 1) * volume dims := by rw [Nat.succ_mul]
            _ ≤ d * volume dims := Nat.mul_le_mul_right _ h.1

/-- **Distinct coordinates have distinct cells.** -/
theorem place_inj {dims c c' : List Nat} (h : inside dims c = true) (h' : inside dims c' = true)
    (heq : place dims c = place dims c') : c = c' := by
  induction dims generalizing c c' with
  | nil =>
      cases c with
      | cons i c => simp [inside] at h
      | nil =>
          cases c' with
          | cons j c' => simp [inside] at h'
          | nil => rfl
  | cons d dims ih =>
      cases c with
      | nil => simp [inside] at h
      | cons i c =>
          cases c' with
          | nil => simp [inside] at h'
          | cons j c' =>
              simp only [inside, Bool.and_eq_true, decide_eq_true_eq] at h h'
              have hc := place_lt_volume h.2
              have hc' := place_lt_volume h'.2
              have heq : i * volume dims + place dims c = j * volume dims + place dims c' := heq
              -- the slices of an earlier component end before those of a later one begin
              have slices {i j : Nat} (hij : i < j) :
                  i * volume dims + volume dims ≤ j * volume dims := by
                rw [← Nat.succ_mul]
                exact Nat.mul_le_mul_right _ hij
              rcases Nat.lt_trichotomy i j with hij | rfl | hji
              · have := slices hij
                omega
              · rw [ih h.2 h'.2 (by omega)]
              · have := slices hji
                omega

theorem mem_coordinates {dims coord : List Nat} :
    coord ∈ coordinates dims ↔ inside dims coord = true := by
  induction dims generalizing coord with
  | nil =>
      cases coord with
      | nil => simp [coordinates, inside]
      | cons c coord => simp [coordinates, inside]
  | cons d dims ih =>
      cases coord with
      | nil => simp [coordinates, inside]
      | cons c coord =>
          simp only [coordinates, inside, List.mem_flatMap, List.mem_range, List.mem_map,
            List.cons.injEq, Bool.and_eq_true, decide_eq_true_eq]
          constructor
          · rintro ⟨i, hi, rest, hrest, rfl, rfl⟩
            exact ⟨hi, ih.mp hrest⟩
          · rintro ⟨hc, hrest⟩
            exact ⟨c, hc, coord, ih.mpr hrest, rfl, rfl⟩

/-! ## Reading and writing -/

/-- A matrix over some dimensions, with a cell for each coordinate. -/
structure Whole (dims : List Nat) (m : Matrix) : Prop where
  dims_eq : m.dims = dims
  size_eq : m.cells.size = volume dims

/-- **A matrix is made** when a list can hold its cells, and is filled then. -/
theorem new_eq_ok_iff {dims : List Nat} {fill : Json} {m : Matrix} :
    new dims fill = .ok m ↔ volume dims ≤ capacity ∧ m = filled dims fill := by
  unfold new
  split
  next htoo =>
      refine iff_of_false (fun h => by cases h) ?_
      rintro ⟨hfits, -⟩
      omega
  next hfits => simp [Nat.not_lt.mp hfits, eq_comm]

theorem whole_filled (dims : List Nat) (fill : Json) : Whole dims (filled dims fill) :=
  ⟨rfl, Array.size_replicate⟩

variable {dims coord : List Nat} {m : Matrix}

theorem offset_eq (hm : Whole dims m) (hc : inside dims coord = true) :
    m.offset coord = .ok (place dims coord) := by
  unfold offset
  rw [hm.dims_eq]
  exact if_pos hc

theorem place_lt_size (hm : Whole dims m) (hc : inside dims coord = true) :
    place dims coord < m.cells.size := by
  rw [hm.size_eq]
  exact place_lt_volume hc

def cellAt (m : Matrix) (coord : List Nat) : Cell := m.cell (place m.dims coord)

theorem get_eq (hm : Whole dims m) (hc : inside dims coord = true) :
    m.get coord = .ok (m.cellAt coord).value := by
  rw [get, offset_eq hm hc, cellAt, hm.dims_eq]
  rfl

theorem cellAt_filled (fill : Json) (hc : inside dims coord = true) :
    (filled dims fill).cellAt coord = { value := fill, written := false } := by
  have hlt : place dims coord < volume dims := place_lt_volume hc
  show (((Array.replicate (volume dims) _)[place dims coord]?).getD default : Cell) = _
  rw [Array.getElem?_replicate, if_pos hlt]
  rfl

end Matrix

def Cell.write (old : Cell) (value : Json) (aggregate : Aggregate) : Cell :=
  { value := if old.written then aggregate.combine old.value value else value, written := true }

namespace Matrix

variable {dims coord : List Nat} {m : Matrix}

theorem cell_set {i : Nat} (h : i < m.cells.size) (new : Cell) (j : Nat) :
    ({ m with cells := m.cells.setIfInBounds i new } : Matrix).cell j
      = if j = i then new else m.cell j := by
  unfold cell
  split
  next heq => rw [heq, Array.getElem?_setIfInBounds_self_of_lt h, Option.getD_some]
  next hne => rw [Array.getElem?_setIfInBounds_ne (Ne.symm hne)]

/-- **Writing inside changes one cell**, and keeps a matrix whole. -/
theorem merge_total (hm : Whole dims m) (hc : inside dims coord = true) (value : Json)
    (aggregate : Aggregate) : ∃ m', m.merge coord value aggregate = .ok m' ∧ Whole dims m'
      ∧ ∀ c, inside dims c = true → m'.cellAt c
        = if c = coord then (m.cellAt coord).write value aggregate else m.cellAt c := by
  unfold merge
  rw [offset_eq hm hc, Results.ok_bind]
  refine ⟨_, rfl, ⟨hm.dims_eq, by rw [Array.size_setIfInBounds, hm.size_eq]⟩, ?_⟩
  intro c hinside
  have hplace : place dims c = place dims coord ↔ c = coord :=
    ⟨place_inj hinside hc, fun heq => by rw [heq]⟩
  rw [cellAt, cell_set (place_lt_size hm hc), cellAt, cellAt, hm.dims_eq]
  simp only [hplace]
  rfl

end Matrix

end Tabula
