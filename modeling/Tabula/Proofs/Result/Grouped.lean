import Tabula.Proofs.Result.Matrices
import Tabula.Result.Grouped

/-!
# Formatting is total

Rows with their places in the cube can be written into the matrices of the selects, after which
each cell holds the rows of its coordinate and no others (`fillMatrices_holds`). Each of the formats
succeeds but for one reason: it needs every cell of a cube that has more cells than there can be
(`Overruns`).
-/

set_option autoImplicit false

namespace Tabula

/-- The columns of selects are those that are no child of another. -/
theorem header_foldChildren {names : List String} {values : List Json}
    (h : values.length = names.length) :
    (foldChildren names values).1 = names.filter (isTop names) := by
  have hnames : (names.zip values).map (·.1) = names := List.map_fst_zip (Nat.le_of_eq h.symm)
  calc
    (foldChildren names values).1
        = ((names.zip values).filter ((isTop names ·) ∘ Prod.fst)).map (·.1) := rfl
    _ = ((names.zip values).map (·.1)).filter (isTop names) := List.filter_map.symm
    _ = names.filter (isTop names) := by rw [hnames]

/-- The cell of a select after some rows. -/
def PlannedSelect.cell (s : PlannedSelect) (rows : List Row) : Cell :=
  rows.foldl (fun cell row => cell.write (s.value row.node) s.select.aggregate)
    { value := s.select.default, written := false }

namespace Grouping

open Tabula.Matrix (Whole)

variable {p : GroupingPlan} {rows : List Row}

/-! ## Filling -/

/-- Whether a matrix holds at each coordinate what the rows of that coordinate make of it. -/
structure Holds (dims : List Nat) (rows : List Row) (s : PlannedSelect) (m : Matrix) : Prop where
  whole : Whole dims m
  cell_eq : ∀ coord, Matrix.inside dims coord = true →
    m.cellAt coord = s.cell (rows.filter (·.coord = coord))

section Filling

variable {dims : List Nat}

theorem holds_filled (s : PlannedSelect) :
    Holds dims [] s (Matrix.filled dims s.select.default) where
  whole := Matrix.whole_filled _ _
  cell_eq _ hc := Matrix.cellAt_filled _ hc

/-- One more row goes to its own cell. -/
theorem Holds.merge {s : PlannedSelect} {m : Matrix} (h : Holds dims rows s m) {row : Row}
    (hrow : Matrix.inside dims row.coord = true) :
    ∃ m', m.merge row.coord (s.value row.node) s.select.aggregate = .ok m'
      ∧ Holds dims (rows ++ [row]) s m' := by
  obtain ⟨m', hm', hwhole, hcells⟩ := Matrix.merge_total h.whole hrow (s.value row.node)
    s.select.aggregate
  refine ⟨m', hm', hwhole, ?_⟩
  intro coord hc
  rw [hcells coord hc, List.filter_append]
  by_cases heq : coord = row.coord
  · subst heq
    rw [if_pos rfl, h.cell_eq row.coord hc]
    simp [PlannedSelect.cell]
  · have hrest : [row].filter (·.coord = coord) = [] := by simpa using Ne.symm heq
    rw [if_neg heq, hrest, List.append_nil, h.cell_eq coord hc]

theorem mergeRow_holds {row : Row} (hrow : Matrix.inside dims row.coord = true)
    {selects : List PlannedSelect} {matrices : List Matrix}
    (h : List.Forall₂ (Holds dims rows) selects matrices) :
    ∃ out, mergeRow row selects matrices = .ok out
      ∧ List.Forall₂ (Holds dims (rows ++ [row])) selects out := by
  induction h with
  | nil =>
      refine ⟨[], ?_, .nil⟩
      unfold mergeRow
      rfl
  | cons hm _ ih =>
      obtain ⟨m', hm', hholds⟩ := hm.merge hrow
      obtain ⟨out, hout, hall⟩ := ih
      refine ⟨m' :: out, ?_, .cons hholds hall⟩
      rw [mergeRow, hm', Results.ok_bind, hout, Results.ok_bind]

/-- Rows are written one after another, behind those that were written before. -/
theorem foldlM_mergeRow_holds {more : List Row}
    (hmore : ∀ row ∈ more, Matrix.inside dims row.coord = true) {selects : List PlannedSelect}
    {matrices : List Matrix} (h : List.Forall₂ (Holds dims rows) selects matrices) :
    ∃ out, more.foldlM (fun matrices row => mergeRow row selects matrices) matrices = .ok out
      ∧ List.Forall₂ (Holds dims (rows ++ more)) selects out := by
  induction more generalizing rows matrices with
  | nil =>
      rw [List.append_nil]
      exact ⟨matrices, rfl, h⟩
  | cons row more ih =>
      obtain ⟨hrow, hmore⟩ := List.forall_mem_cons.mp hmore
      obtain ⟨mid, hmid, hall⟩ := mergeRow_holds hrow h
      obtain ⟨out, hout, hall⟩ := ih hmore hall
      rw [List.append_assoc] at hall
      refine ⟨out, ?_, hall⟩
      rw [List.foldlM_cons, hmid, Results.ok_bind, hout]

end Filling

/-- Whether the matrices of some selects have more cells than there can be. -/
def HasTooManyCells (p : GroupingPlan) : Prop :=
  p.selects ≠ [] ∧ capacity < Matrix.volume (dims p)

instance (p : GroupingPlan) : Decidable (HasTooManyCells p) := instDecidableAnd

theorem fillMatrices_tooLong (h : HasTooManyCells p) :
    fillMatrices p rows = .error .tooLong := by
  obtain ⟨hselects, hcells⟩ := h
  obtain ⟨s, selects, hs⟩ := List.exists_cons_of_ne_nil hselects
  have hnew : Matrix.new (dims p) s.select.default = .error .tooLong := if_pos hcells
  rw [fillMatrices, hs, List.mapM_cons, hnew]
  rfl

/-- **All rows can be written** when their places are inside of the cube, each into its own
cell. -/
theorem fillMatrices_holds (hcells : ¬ HasTooManyCells p)
    (hrows : ∀ row ∈ rows, Matrix.inside (dims p) row.coord = true) :
    ∃ matrices, fillMatrices p rows = .ok matrices
      ∧ List.Forall₂ (Holds (dims p) rows) p.selects matrices := by
  have hmade : p.selects.mapM (fun s => Matrix.new (dims p) s.select.default)
      = .ok (p.selects.map fun s => Matrix.filled (dims p) s.select.default) := by
    refine Results.mapM_of_eq_ok fun s hs => ?_
    have hfits : ¬ capacity < Matrix.volume (dims p) :=
      fun htoo => hcells ⟨List.ne_nil_of_mem hs, htoo⟩
    exact Matrix.new_eq_ok_iff.mpr ⟨Nat.not_lt.mp hfits, rfl⟩
  have hempty : List.Forall₂ (Holds (dims p) []) p.selects
      (p.selects.map fun s => Matrix.filled (dims p) s.select.default) :=
    List.forall₂_map_right_iff.mpr (List.forall₂_same.mpr fun s _ => holds_filled s)
  rw [fillMatrices, hmade, Results.ok_bind]
  exact foldlM_mergeRow_holds hrows hempty

/-! ## Reading -/

/-- **The values at a coordinate** are what its rows make of them. -/
theorem cellValues_eq {dims coord : List Nat} (hc : Matrix.inside dims coord = true)
    {selects : List PlannedSelect} {matrices : List Matrix}
    (h : List.Forall₂ (Holds dims rows) selects matrices) :
    cellValues matrices coord
      = .ok (selects.map fun s => (s.cell (rows.filter (·.coord = coord))).value) := by
  refine Results.mapM_eq_ok.mpr (List.forall₂_map_right_iff.mpr (h.flip.imp ?_))
  intro m s hm
  rw [Matrix.get_eq hm.whole hc, hm.cell_eq coord hc]

/-- The values of the selects at a coordinate of the filled matrices. -/
def cellsAt (p : GroupingPlan) (rows : List Row) (coord : List Nat) : QueryResult (List Json) := do
  cellValues (← fillMatrices p rows) coord

theorem cellsAt_eq (hcells : ¬ HasTooManyCells p)
    (hrows : ∀ row ∈ rows, Matrix.inside (dims p) row.coord = true) {coord : List Nat}
    (hc : Matrix.inside (dims p) coord = true) :
    cellsAt p rows coord
      = .ok (p.selects.map fun s => (s.cell (rows.filter (·.coord = coord))).value) := by
  obtain ⟨matrices, hmatrices, hholds⟩ := fillMatrices_holds hcells hrows
  rw [cellsAt, hmatrices, Results.ok_bind, cellValues_eq hc hholds]

theorem allCells_eq (hcells : ¬ HasTooManyCells p)
    (hrows : ∀ row ∈ rows, Matrix.inside (dims p) row.coord = true) :
    allCells p rows = .ok ((Matrix.coordinates (dims p)).map fun coord =>
      { coord,
        values := p.selects.map fun s => (s.cell (rows.filter (·.coord = coord))).value }) := by
  obtain ⟨matrices, hmatrices, hholds⟩ := fillMatrices_holds hcells hrows
  unfold allCells
  rw [hmatrices, Results.ok_bind]
  refine Results.mapM_of_eq_ok ?_
  intro coord hc
  rw [cellValues_eq (Matrix.mem_coordinates.mp hc) hholds, Results.ok_bind]

theorem cube_total (hcells : ¬ HasTooManyCells p)
    (hrows : ∀ row ∈ rows, Matrix.inside (dims p) row.coord = true) :
    ∃ f, cube p rows = .ok f := by
  obtain ⟨matrices, hmatrices, -⟩ := fillMatrices_holds hcells hrows
  unfold cube
  rw [hmatrices, Results.ok_bind]
  exact ⟨_, rfl⟩

/-! ## Headers -/

/-- The values of a row have no part in the header that is made along with it. -/
theorem headerWith_eq {values : List Json} (h : values.length = p.selects.length) :
    headerWith p values = header p := by
  have hvalues : values.length = (selectNames p).length := by rw [h, selectNames, List.length_map]
  rw [header, headerWith, headerWith, header_foldChildren hvalues,
    header_foldChildren (by rw [List.length_map])]

theorem groupsHeader_eq {shown : List Group}
    (h : ∀ g ∈ shown, g.values.length = p.selects.length) : groupsHeader p shown = header p := by
  cases shown with
  | nil => rfl
  | cons g shown => exact headerWith_eq (h g List.mem_cons_self)

/-! ## Formats -/

/-- Whether a result shows every coordinate of a cube, and there are too many. Groups show only
the coordinates with documents. -/
def Overruns (q : Query) (p : GroupingPlan) : Prop :=
  p.decoders ≠ [] ∧ (q.format = .cube ∨ q.isGroupby = false) ∧ HasTooManyCells p

theorem format_tooLong {q : Query} (h : Overruns q p) : format q p rows = .error .tooLong := by
  obtain ⟨hdecoders, hformat, hcells⟩ := h
  unfold format
  rw [List.isEmpty_eq_false_iff.mpr hdecoders]
  simp only [Bool.false_eq_true, if_false]
  split
  next =>
      unfold cube
      rw [fillMatrices_tooLong hcells]
      rfl
  next hcube =>
      rw [hformat.resolve_left hcube]
      simp only [Bool.false_eq_true, if_false]
      unfold allCells
      rw [fillMatrices_tooLong hcells]
      rfl

/-- **Each format succeeds** on rows with their places inside of the cube. -/
theorem format_total {q : Query} (h : ¬ Overruns q p)
    (hrows : ∀ row ∈ rows, Matrix.inside (dims p) row.coord = true) :
    ∃ f, format q p rows = .ok f := by
  unfold format
  split
  next => exact ⟨_, rfl⟩
  next hdecoders =>
      have hne : p.decoders ≠ [] := fun hnil => hdecoders (List.isEmpty_iff.mpr hnil)
      split
      next hcube =>
          exact cube_total (fun hcells => h ⟨hne, Or.inl hcube, hcells⟩) hrows
      next =>
          cases hgroup : q.isGroupby with
          | true => exact ⟨_, rfl⟩
          | false =>
              simp only [Bool.false_eq_true, if_false]
              rw [allCells_eq (fun hcells => h ⟨hne, Or.inr hgroup, hcells⟩) hrows]
              exact ⟨_, rfl⟩

end Grouping

end Tabula
