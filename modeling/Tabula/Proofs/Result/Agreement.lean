import Tabula.Proofs.Result.Grouped
import Tabula.Proofs.Result.Groups
import Tabula.Proofs.Result.Merging

/-!
# Groups and cells agree

The rows of an aggregation are combined in two ways: sorted and then merged with their neighbours
into groups, or written one after another into the cells of matrices. Either way the rows of one
coordinate are combined from the first to the last (`groups_of_coord`, `value_cell_cons`). So the
groups are the cells at which documents were counted, in the order of their coordinates
(`groups_agree`).
-/

set_option autoImplicit false

namespace Tabula

/-! ## A cell of several rows -/

/-- The first row of a cell replaces the default, and the others are combined with it. -/
theorem PlannedSelect.value_cell_cons (s : PlannedSelect) (row : Row) (rows : List Row) :
    (s.cell (row :: rows)).value
      = rows.foldl (fun v row => s.select.aggregate.combine v (s.value row.node))
        (s.value row.node) := by
  have hcell := Cell.foldl_write_cons s.select.aggregate s.select.default (s.value row.node)
    (rows.map fun row => s.value row.node)
  rw [← List.map_cons (f := fun row : Row => s.value row.node), List.foldl_map,
    List.foldl_map] at hcell
  rw [cell, hcell]

namespace Grouping

variable {p : GroupingPlan} {rows : List Row} {coord : List Nat}

/-! ## A group of several rows -/

def withDocuments (rows : List Row) : List Row :=
  rows.filter fun r => 0 < Response.docCount r.node

theorem groups_withDocuments (p : GroupingPlan) (rows : List Row) :
    groups p (withDocuments rows) = groups p rows := by
  simp only [groups, withDocuments, List.filter_filter, Bool.and_self]

theorem combineValues_map (selects : List PlannedSelect) (f g : PlannedSelect → Json) :
    combineValues selects (selects.map f) (selects.map g)
      = selects.map fun s => s.select.aggregate.combine (f s) (g s) := by
  induction selects with
  | nil => rfl
  | cons s selects ih => rw [List.map_cons, List.map_cons, combineValues, ih, List.map_cons]

/-- Rows of the coordinate of a group are combined with it, one after another. -/
theorem foldl_addRow_of_coord (h : ∀ row ∈ rows, row.coord = coord) (f : PlannedSelect → Json) :
    rows.foldl (addRow p) [{ coord, values := p.selects.map f }]
      = [{ coord, values := p.selects.map fun s =>
          rows.foldl (fun v row => s.select.aggregate.combine v (s.value row.node)) (f s) }] := by
  induction rows generalizing f with
  | nil => rfl
  | cons row rows ih =>
      obtain ⟨hrow, hrows⟩ := List.forall_mem_cons.mp h
      have hadd : addRow p [{ coord, values := p.selects.map f }] row
          = [{ coord, values := p.selects.map fun s =>
              s.select.aggregate.combine (f s) (s.value row.node) }] := by
        rw [addRow_cons, if_pos hrow.symm, selectValues, combineValues_map]
      rw [List.foldl_cons, hadd, ih hrows]
      rfl

/-- **Rows of one coordinate make one group**, which holds the cells that they make. -/
theorem groups_of_coord (hne : rows ≠ []) (hcoord : ∀ row ∈ rows, row.coord = coord)
    (hdocs : ∀ row ∈ rows, 0 < Response.docCount row.node) :
    groups p rows = [{ coord, values := p.selects.map fun s => (s.cell rows).value }] := by
  obtain ⟨row, rest, rfl⟩ := List.exists_cons_of_ne_nil hne
  have hsorted : (row :: rest).Pairwise fun a b => (compareCoord a.coord b.coord).isLE := by
    refine List.pairwise_of_forall_mem_list fun a ha b hb => ?_
    have hself : compareCoord coord coord = .eq := Std.ReflCmp.compare_self
    rw [hcoord a ha, hcoord b hb, hself]
    rfl
  have hcounted : (row :: rest).filter (fun r => 0 < Response.docCount r.node) = row :: rest :=
    List.filter_eq_self.mpr fun r hr => decide_eq_true (hdocs r hr)
  obtain ⟨hrow, hrest⟩ := List.forall_mem_cons.mp hcoord
  have hfirst : addRow p [] row
      = [{ coord, values := p.selects.map fun s => s.value row.node }] := by
    rw [← hrow]
    rfl
  rw [groups, hcounted, List.mergeSort_of_pairwise hsorted, List.foldl_cons, hfirst,
    foldl_addRow_of_coord hrest, List.reverse_singleton]
  simp only [PlannedSelect.value_cell_cons]

/-- The groups of a coordinate: none when it has no row with documents, else the one with the
cells that these rows make. -/
theorem filter_groups_eq (p : GroupingPlan) (rows : List Row) (coord : List Nat) :
    (groups p rows).filter (·.coord = coord)
      = if (withDocuments rows).filter (·.coord = coord) = [] then []
        else [{ coord, values := p.selects.map fun s =>
          (s.cell ((withDocuments rows).filter (·.coord = coord))).value }] := by
  rw [← groups_withDocuments, filter_groups]
  split
  next hnil =>
      rw [hnil]
      simp [groups]
  next hne =>
      refine groups_of_coord hne ?_ ?_
      · intro row hrow
        exact of_decide_eq_true (List.mem_filter.mp hrow).2
      · intro row hrow
        exact of_decide_eq_true (List.mem_filter.mp (List.mem_filter.mp hrow).1).2

theorem exists_group_iff :
    (∃ g ∈ groups p rows, g.coord = coord)
      ↔ ∃ row ∈ rows, 0 < Response.docCount row.node ∧ row.coord = coord := by
  constructor
  · rintro ⟨g, hg, rfl⟩
    rw [← groups_withDocuments] at hg
    obtain ⟨row, hrow, heq⟩ := coord_of_mem_groups hg
    obtain ⟨hmem, hdocs⟩ := List.mem_filter.mp hrow
    exact ⟨row, hmem, of_decide_eq_true hdocs, heq.symm⟩
  · rintro ⟨row, hrow, hdocs, hcoord⟩
    have hmem : row ∈ (withDocuments rows).filter (·.coord = coord) :=
      List.mem_filter.mpr ⟨List.mem_filter.mpr ⟨hrow, decide_eq_true hdocs⟩, by simpa using hcoord⟩
    have hfilter := filter_groups_eq p rows coord
    rw [if_neg (List.ne_nil_of_mem hmem)] at hfilter
    have hgroup : { coord, values := p.selects.map fun s =>
        (s.cell ((withDocuments rows).filter (·.coord = coord))).value }
        ∈ (groups p rows).filter (·.coord = coord) := by
      rw [hfilter]
      exact List.mem_singleton_self _
    exact ⟨_, (List.mem_filter.mp hgroup).1, rfl⟩

/-- The values of a group are what the rows with documents of its coordinate make of them. -/
theorem values_of_mem_groups {g : Group} (hg : g ∈ groups p rows) :
    g.values = p.selects.map fun s =>
      (s.cell ((withDocuments rows).filter (·.coord = g.coord))).value := by
  have hmem : g ∈ (groups p rows).filter (·.coord = g.coord) :=
    List.mem_filter.mpr ⟨hg, decide_eq_true rfl⟩
  rw [filter_groups_eq] at hmem
  split at hmem
  next => simp at hmem
  next => exact congrArg Group.values (List.mem_singleton.mp hmem)

theorem length_values_of_mem_groups {g : Group} (h : g ∈ groups p rows) :
    g.values.length = p.selects.length := by
  rw [values_of_mem_groups h, List.length_map]

theorem groupsHeader_groups (p : GroupingPlan) (rows : List Row) :
    groupsHeader p (groups p rows) = header p :=
  groupsHeader_eq fun _ hg => length_values_of_mem_groups hg

/-! ## Agreement -/

/-- **Groups are the cells at which documents were counted.** Their coordinates ascend strictly, a
coordinate is among them exactly when some row with documents has it, and the values there are those
that the matrices hold when only the rows with documents are written, in the same order. The
matrices can be filled unless they have more cells than a list can hold. -/
theorem groups_agree (p : GroupingPlan) {rows : List Row}
    (hrows : ∀ row ∈ rows, Matrix.inside (dims p) row.coord = true) :
    (groups p rows).Pairwise (fun g g' => compareCoord g.coord g'.coord = .lt)
      ∧ (∀ coord, (∃ g ∈ groups p rows, g.coord = coord)
        ↔ ∃ row ∈ rows, 0 < Response.docCount row.node ∧ row.coord = coord)
      ∧ (HasTooManyCells p ∧ fillMatrices p (withDocuments rows) = .error .tooLong
        ∨ ∃ matrices, fillMatrices p (withDocuments rows) = .ok matrices
          ∧ ∀ g ∈ groups p rows, cellValues matrices g.coord = .ok g.values) := by
  refine ⟨groups_ascending p rows, fun _ => exists_group_iff, ?_⟩
  by_cases hcells : HasTooManyCells p
  · exact Or.inl ⟨hcells, fillMatrices_tooLong hcells⟩
  · have hcounted : ∀ row ∈ withDocuments rows, Matrix.inside (dims p) row.coord = true :=
      fun row hrow => hrows row (List.mem_filter.mp hrow).1
    obtain ⟨matrices, hmatrices, hholds⟩ := fillMatrices_holds hcells hcounted
    refine Or.inr ⟨matrices, hmatrices, fun g hg => ?_⟩
    obtain ⟨row, hrow, -, hcoord⟩ := exists_group_iff.mp ⟨g, hg, rfl⟩
    have hinside : Matrix.inside (dims p) g.coord = true := hcoord ▸ hrows row hrow
    rw [cellValues_eq hinside hholds, values_of_mem_groups hg]

/-! ## Two rows of one cell -/

/-- The number of documents for one value, with a place for all other values. -/
def sharedPlan : GroupingPlan where
  tree := []
  keyOrder := .key
  decoders :=
    [{ name := "a", edgeIndex := 0, depth := Path.root, start := 0, allowNulls := true
       kind := .set { partitions := [.str "x"],
                      selection := .byValue (.column "a") .matchNone } }]
  selects := [{ select := .count, pull := .path ["doc_count"] }]

def countedRow (coord : List Nat) (docs : Nat) : Row :=
  { coord, node := .obj [("doc_count", .nat docs)] }

/-- Two rows beside the value, and one of the value that holds no document. -/
def sharedRows : List Row := [countedRow [1] 2, countedRow [0] 0, countedRow [1] 3]

/-- The two rows beside the value become one group, the sum of which is in the one cell. -/
theorem groups_agree_shared :
    groups sharedPlan sharedRows = [{ coord := [1], values := [.nat 5] }]
      ∧ ∃ matrices, fillMatrices sharedPlan (withDocuments sharedRows) = .ok matrices
        ∧ cellValues matrices [1] = .ok [.nat 5] := by
  have hgroups : groups sharedPlan sharedRows = [{ coord := [1], values := [.nat 5] }] := by
    have hcounted : withDocuments sharedRows = [countedRow [1] 2, countedRow [1] 3] := rfl
    rw [← groups_withDocuments, hcounted]
    exact groups_of_coord (by simp) (by decide) (by decide)
  have hrows : ∀ row ∈ sharedRows, Matrix.inside (dims sharedPlan) row.coord = true := by decide
  obtain ⟨-, -, ⟨hcells, -⟩ | ⟨matrices, hmatrices, hagree⟩⟩ := groups_agree sharedPlan hrows
  · exact absurd hcells.2 (by decide +kernel)
  · rw [hgroups] at hagree
    exact ⟨hgroups, matrices, hmatrices, hagree _ (List.mem_singleton_self _)⟩

end Grouping

end Tabula
