import Mathlib
import Tabula.Proofs.Json.Fields
import Tabula.Proofs.Result.Grouped
import Tabula.Proofs.Result.Nesting

/-!
# Formats agree

A list, a table and a cube over edges show the same cells (`formats_agree`). The row of a coordinate
stands at the coordinate's place, its edges are sorted into the order in which the query wrote them
(`edgeValues_eq_columns`), and the cells of the selects follow; an object is such a row without its
nulls. The arrays of a cube are indexed by the components of the coordinate, in the order of the
decoders.
-/

set_option autoImplicit false

namespace Tabula

/-! ## Columns without children -/

section Columns

variable {names : List String}

theorem parent?_eq_none (h : ∀ a ∈ names, ∀ b ∈ names, Path.below? a b = none) {name : String}
    (hn : name ∈ names) : parent? names name = none := by
  refine List.findIdx?_eq_none_iff.mpr fun outer houter => ?_
  rw [h outer houter name hn]
  rfl

/-- Names none of which is a dotted child of another keep their columns. -/
theorem foldChildren_eq (h : ∀ a ∈ names, ∀ b ∈ names, Path.below? a b = none)
    {values : List Json} (hlength : values.length = names.length) :
    foldChildren names values = (names, values) := by
  have hparent {entry : String × Json} (hentry : entry ∈ names.zip values) :
      parent? names entry.1 = none :=
    parent?_eq_none h (List.of_mem_zip hentry).1
  have htops : (names.zip values).filter (fun e => isTop names e.1) = names.zip values := by
    refine List.filter_eq_self.mpr fun entry hentry => ?_
    rw [isTop, hparent hentry]
    rfl
  have hfold (cells : List Json) : (names.zip values).foldl (addChild names) cells = cells := by
    have hstep (cells : List Json) (entry : String × Json) (hentry : entry ∈ names.zip values) :
        addChild names cells entry = cells := by
      rw [addChild, hparent hentry]
    rw [List.foldl_ext _ (fun cells _ => cells) cells hstep]
    exact List.foldl_fixed' (fun _ => rfl) _
  have hnames : (names.zip values).map (·.1) = names :=
    List.map_fst_zip (Nat.le_of_eq hlength.symm)
  have hvalues : (names.zip values).map (·.2) = values := List.map_snd_zip (Nat.le_of_eq hlength)
  simp only [foldChildren, htops, hfold, hnames, hvalues]

end Columns

namespace Grouping

variable {p : GroupingPlan} {rows : List Row} {coord : List Nat}

/-! ## Written order -/

/-- The names of the edges, in the order in which the query wrote them. -/
def edgeNames (p : GroupingPlan) : List String :=
  (p.decoders.mergeSort fun a b => a.edgeIndex ≤ b.edgeIndex).map (·.name)

/-- The values of the edges at a coordinate, in the order in which the query wrote them. A
component of the coordinate belongs to the decoder at the same place. -/
def edgeCells (p : GroupingPlan) (coord : List Nat) : List Json :=
  ((p.decoders.zip coord).mergeSort fun a b => a.1.edgeIndex ≤ b.1.edgeIndex).map fun own =>
    own.1.value own.2

/-- What stands at the places of a list is the list. -/
theorem map_getElem?_range {α : Type} [Inhabited α] (xs : List α) :
    ((List.range xs.length).map fun i => (xs[i]?).getD default) = xs := by
  refine List.ext_getElem (by simp) fun i _ hi => ?_
  simp [List.getElem?_eq_getElem hi]

theorem length_edgeCells (hlength : coord.length = p.decoders.length) :
    (edgeCells p coord).length = (edgeNames p).length := by
  rw [edgeCells, edgeNames, List.length_map, List.length_map, List.length_mergeSort,
    List.length_mergeSort, List.length_zip, hlength, Nat.min_self]

/-- Sorting the places of the decoders is sorting the decoders, each with what belongs to it. -/
theorem filterMap_writtenOrder {α β : Type} [Inhabited α] {own : List α} (decoder : α → Decoder)
    (hown : own.map decoder = p.decoders) {f : Nat → Option β} {g : α → β}
    (h : ∀ i a, own[i]? = some a → f i = some (g a)) :
    (writtenOrder p).filterMap f
      = (own.mergeSort fun a b => (decoder a).edgeIndex ≤ (decoder b).edgeIndex).map g := by
  have hlength : p.decoders.length = own.length := by rw [← hown, List.length_map]
  have hget (i : Nat) (hi : i ∈ List.range own.length) :
      own[i]? = some ((own[i]?).getD default) := by
    rw [List.getElem?_eq_getElem (List.mem_range.mp hi), Option.getD_some]
  -- sorting the places is sorting what stands at them
  have hindex (i : Nat) (hi : i ∈ List.range own.length) :
      ((p.decoders[i]?).map (·.edgeIndex)).getD 0
        = (decoder ((own[i]?).getD default)).edgeIndex := by
    rw [← hown, List.getElem?_map, hget i hi]
    rfl
  calc
    (writtenOrder p).filterMap f
        = (writtenOrder p).map fun i => g ((own[i]?).getD default) := by
          refine List.filterMap_eq_map_iff_forall_eq_some.mpr fun i hi => h i _ (hget i ?_)
          rw [← hlength]
          exact (List.mergeSort_perm _ _).mem_iff.mp hi
    _ = ((writtenOrder p).map fun i => (own[i]?).getD default).map g := List.map_map.symm
    _ = (((List.range own.length).map fun i => (own[i]?).getD default).mergeSort fun a b =>
          (decoder a).edgeIndex ≤ (decoder b).edgeIndex).map g := by
          rw [writtenOrder, hlength]
          refine congrArg (List.map g) (List.map_mergeSort fun i hi j hj => ?_)
          simp only [hindex i hi, hindex j hj]
    _ = (own.mergeSort fun a b => (decoder a).edgeIndex ≤ (decoder b).edgeIndex).map g := by
          rw [map_getElem?_range]

/-- The edges in the header of a table are in written order. -/
theorem filterMap_name_eq (p : GroupingPlan) :
    (writtenOrder p).filterMap (fun i => (p.decoders[i]?).map (·.name)) = edgeNames p := by
  refine filterMap_writtenOrder id (List.map_id _) fun i d hd => ?_
  rw [hd, Option.map_some]

/-- **The edges of a row** are in written order, each with its value at its own component. -/
theorem edgeValues_eq_zip (hlength : coord.length = p.decoders.length) :
    edgeValues p coord = (edgeNames p).zip (edgeCells p coord) := by
  have hown : (p.decoders.zip coord).map (·.1) = p.decoders :=
    List.map_fst_zip (Nat.le_of_eq hlength.symm)
  have hsorted : edgeValues p coord
      = ((p.decoders.zip coord).mergeSort fun a b => a.1.edgeIndex ≤ b.1.edgeIndex).map
          fun own => (own.1.name, own.1.value own.2) := by
    refine filterMap_writtenOrder Prod.fst hown fun i own hi => ?_
    obtain ⟨hdecoder, hcomponent⟩ := List.getElem?_zip_eq_some.mp hi
    rw [hdecoder, hcomponent]
    rfl
  have hnames : edgeNames p
      = (((p.decoders.zip coord).mergeSort fun a b => a.1.edgeIndex ≤ b.1.edgeIndex).map
          (·.1)).map (·.name) := by
    have hmap : ((p.decoders.zip coord).mergeSort fun a b => a.1.edgeIndex ≤ b.1.edgeIndex).map
        (·.1) = ((p.decoders.zip coord).map (·.1)).mergeSort fun a b =>
          a.edgeIndex ≤ b.edgeIndex := List.map_mergeSort fun _ _ _ _ => rfl
    rw [hmap, hown, edgeNames]
  rw [hsorted]
  refine List.zip_of_prod ?_ ?_
  · rw [hnames, List.map_map, List.map_map]
    rfl
  · rw [List.map_map]
    rfl

/-! ## The three formats -/

/-- Names that keep apart what they name: the edges and selects have distinct names, and no select
is named like a dotted child of another. -/
structure Plain (p : GroupingPlan) : Prop where
  nodup : (p.decoders.map (·.name) ++ selectNames p).Nodup
  children : ∀ a ∈ selectNames p, ∀ b ∈ selectNames p, Path.below? a b = none

theorem Plain.nodup_header (h : Plain p) : (edgeNames p ++ selectNames p).Nodup := by
  have hperm : (edgeNames p).Perm (p.decoders.map (·.name)) := (List.mergeSort_perm _ _).map _
  exact (hperm.append_right _).nodup_iff.mpr h.nodup

theorem header_eq (h : Plain p) : header p = edgeNames p ++ selectNames p := by
  rw [header, headerWith, filterMap_name_eq, foldChildren_eq h.children (by rw [List.length_map])]

section Rows

variable {values : List Json} (hlength : coord.length = p.decoders.length)
include hlength

/-- **A row of a table** is the values of the edges and then the cells. -/
theorem tableRow_eq (h : Plain p) (hvalues : values.length = p.selects.length) :
    tableRow p coord values = edgeCells p coord ++ values := by
  have hedges : (edgeValues p coord).map (·.2) = edgeCells p coord := by
    rw [edgeValues_eq_zip hlength]
    exact List.map_snd_zip (Nat.le_of_eq (length_edgeCells hlength))
  rw [tableRow, hedges, foldChildren_eq h.children (by rw [selectNames, List.length_map, hvalues])]

/-- **A row of a list** has what stands in the row of a table under its name, but for the nulls. -/
theorem rowObject_eq (h : Plain p) (hvalues : values.length = p.selects.length) :
    rowObject p coord values
      = .obj (((edgeNames p ++ selectNames p).zip (edgeCells p coord ++ values)).filter
          fun member => !member.2.isNull) := by
  have hentries : edgeValues p coord ++ (selectNames p).zip values
      = (edgeNames p ++ selectNames p).zip (edgeCells p coord ++ values) := by
    rw [edgeValues_eq_zip hlength, List.zip_append (length_edgeCells hlength).symm]
  have hheader : (edgeNames p ++ selectNames p).length = (edgeCells p coord ++ values).length := by
    rw [List.length_append, List.length_append, length_edgeCells hlength, hvalues, selectNames,
      List.length_map]
  have hnames : (((edgeNames p ++ selectNames p).zip (edgeCells p coord ++ values)).map
      (·.1)).Nodup := by
    rw [List.map_fst_zip (Nat.le_of_eq hheader)]
    exact h.nodup_header
  rw [rowObject, hentries, Fields.foldl_put hnames]

end Rows

/-- **The array of a select**, indexed by the components of a coordinate, is the select's cell
there. -/
theorem cell?_cube (h : Plain p) (hcells : ¬ HasTooManyCells p)
    (hrows : ∀ row ∈ rows, Matrix.inside (dims p) row.coord = true) :
    ∃ f, cube p rows = .ok f ∧ ∀ s ∈ p.selects, ∀ coord, Matrix.inside (dims p) coord = true →
      (f.data.get? s.select.name).bind (Json.cell? coord)
        = some (s.cell (rows.filter (·.coord = coord))).value := by
  obtain ⟨matrices, hmatrices, hholds⟩ := fillMatrices_holds hcells hrows
  have hcube : cube p rows = .ok (.cube (p.decoders.map fun d => d.outputDomain.toJson)
      ((selectNames p).zip (matrices.map Matrix.toJson))) := by
    rw [cube, hmatrices, Results.ok_bind]
  refine ⟨_, hcube, fun s hs coord hc => ?_⟩
  obtain ⟨j, hj, rfl⟩ := List.getElem_of_mem hs
  have hm : j < matrices.length := hholds.length_eq ▸ hj
  have hselect : Holds (dims p) rows p.selects[j] matrices[j] := hholds.get hj hm
  have hmem : (p.selects[j].select.name, matrices[j].toJson)
      ∈ (selectNames p).zip (matrices.map Matrix.toJson) := by
    have hpair : ((selectNames p).zip (matrices.map Matrix.toJson))[j]?
        = some (p.selects[j].select.name, matrices[j].toJson) := by
      refine List.getElem?_zip_eq_some.mpr ⟨?_, ?_⟩
      · rw [selectNames, List.getElem?_map, List.getElem?_eq_getElem hj, Option.map_some]
      · rw [List.getElem?_map, List.getElem?_eq_getElem hm, Option.map_some]
    exact List.mem_of_getElem? hpair
  -- under distinct names no array replaces another
  have hnames : (((selectNames p).zip (matrices.map Matrix.toJson)).map (·.1)).Nodup := by
    have hlength : (selectNames p).length = (matrices.map Matrix.toJson).length := by
      rw [selectNames, List.length_map, List.length_map, hholds.length_eq]
    rw [List.map_fst_zip (Nat.le_of_eq hlength)]
    exact (List.nodup_append.mp h.nodup).2.1
  have hget : (Formatted.cube (p.decoders.map fun d => d.outputDomain.toJson)
      ((selectNames p).zip (matrices.map Matrix.toJson))).data.get? p.selects[j].select.name
        = some matrices[j].toJson := by
    show Fields.get? _ (Fields.ofList _) = _
    rw [Fields.ofList_eq hnames, Fields.get?_of_mem hnames hmem]
  rw [hget, Option.bind_some, Matrix.cell?_toJson hselect.whole hc, hselect.cell_eq coord hc]

def selectCells (p : GroupingPlan) (rows : List Row) (coord : List Nat) : List Json :=
  p.selects.map fun s => (s.cell (rows.filter (·.coord = coord))).value

section Shown

variable {q : Query} (hdecoders : p.decoders ≠ []) (hedges : q.isGroupby = false)
  (hcells : ¬ HasTooManyCells p)
  (hrows : ∀ row ∈ rows, Matrix.inside (dims p) row.coord = true)
include hdecoders hedges hcells hrows

/-- A table has a row for each coordinate, in the order in which these are listed. -/
theorem format_table_eq : format { q with format := .table } p rows
    = .ok (.table (header p) ((Matrix.coordinates (dims p)).map fun coord =>
      tableRow p coord (selectCells p rows coord))) := by
  have hgroupby : ({ q with format := .table } : Query).isGroupby = false := hedges
  have hnonempty : p.decoders.isEmpty = false := List.isEmpty_eq_false_iff.mpr hdecoders
  unfold format
  simp only [hnonempty, hgroupby, allCells_eq hcells hrows, Bool.false_eq_true, if_false,
    reduceCtorEq, Results.ok_bind, List.map_map]
  rfl

/-- A list has an object for each coordinate, in the order in which these are listed. -/
theorem format_list_eq : format { q with format := .list } p rows
    = .ok (.list ((Matrix.coordinates (dims p)).map fun coord =>
      rowObject p coord (selectCells p rows coord))) := by
  have hgroupby : ({ q with format := .list } : Query).isGroupby = false := hedges
  have hnonempty : p.decoders.isEmpty = false := List.isEmpty_eq_false_iff.mpr hdecoders
  unfold format
  simp only [hnonempty, hgroupby, allCells_eq hcells hrows, Bool.false_eq_true, if_false,
    reduceCtorEq, if_true, Results.ok_bind, List.map_map]
  rfl

end Shown

/-- **A list, a table and a cube show the same cells.** The header of the table is the names of the
edges in written order and then those of the selects. At the place of each coordinate of the cube in
row-major order, the table has the values of the edges there and then the cells, the list has an
object in which the names of the header stand for the same values, the nulls left out, and the
arrays of the cube, indexed by the components of the coordinate, hold the same cells. Where the cube
has more cells than a list can hold, there is no result in any of the formats. -/
theorem formats_agree {q : Query} {p : GroupingPlan} (hedges : q.isGroupby = false)
    (hdecoders : p.decoders ≠ []) (hplain : Plain p) {rows : List Row}
    (hrows : ∀ row ∈ rows, Matrix.inside (dims p) row.coord = true) :
    (HasTooManyCells p ∧ ∀ f, format { q with format := f } p rows = .error .tooLong)
      ∨ ∃ table objects cube,
        format { q with format := .table } p rows
            = .ok (.table (edgeNames p ++ selectNames p) table)
          ∧ format { q with format := .list } p rows = .ok (.list objects)
          ∧ format { q with format := .cube } p rows = .ok cube
          ∧ table.length = Matrix.volume (dims p) ∧ objects.length = Matrix.volume (dims p)
          ∧ ∀ coord, Matrix.inside (dims p) coord = true →
            ∃ cells, cellsAt p rows coord = .ok cells ∧ cells.length = p.selects.length
              ∧ table[Matrix.place (dims p) coord]? = some (edgeCells p coord ++ cells)
              ∧ objects[Matrix.place (dims p) coord]? = some
                (.obj (((edgeNames p ++ selectNames p).zip (edgeCells p coord ++ cells)).filter
                  fun member => !member.2.isNull))
              ∧ ∀ entry ∈ (selectNames p).zip cells,
                (cube.data.get? entry.1).bind (Json.cell? coord) = some entry.2 := by
  by_cases hcells : HasTooManyCells p
  · exact Or.inl ⟨hcells, fun f => format_tooLong ⟨hdecoders, Or.inr hedges, hcells⟩⟩
  · obtain ⟨shown, hcube, hget⟩ := cell?_cube hplain hcells hrows
    have htable := format_table_eq hdecoders hedges hcells hrows
    rw [header_eq hplain] at htable
    have hformat : format { q with format := .cube } p rows = .ok shown := by
      rw [format, List.isEmpty_eq_false_iff.mpr hdecoders]
      exact hcube
    refine Or.inr ⟨_, _, shown, htable, format_list_eq hdecoders hedges hcells hrows, hformat,
      by rw [List.length_map, Matrix.length_coordinates],
      by rw [List.length_map, Matrix.length_coordinates], fun coord hc => ?_⟩
    have hlength : coord.length = p.decoders.length := by
      rw [← (Matrix.inside_iff.mp hc).length_eq, dims, List.length_map]
    have hselects : (selectCells p rows coord).length = p.selects.length := List.length_map _
    have hplace := Matrix.getElem?_coordinates_place hc
    refine ⟨selectCells p rows coord, cellsAt_eq hcells hrows hc, hselects, ?_, ?_, ?_⟩
    · rw [List.getElem?_map, hplace, Option.map_some, tableRow_eq hlength hplain hselects]
    · rw [List.getElem?_map, hplace, Option.map_some, rowObject_eq hlength hplain hselects]
    · intro entry hentry
      rw [selectNames, selectCells, List.zip_map'] at hentry
      obtain ⟨s, hs, rfl⟩ := List.mem_map.mp hentry
      exact hget s hs coord hc

/-! ## Two edges -/

def setDecoder (name : String) (edgeIndex : Nat) (values : List Json) : Decoder where
  name := name
  edgeIndex := edgeIndex
  depth := Path.root
  start := 0
  allowNulls := true
  kind := .set { partitions := values, selection := .byValue (.column name) .matchNone }

/-- The number of documents by two edges, of two and of three partitions. The decoder of the edge
that the query wrote last comes first. -/
def crossPlan : GroupingPlan where
  tree := []
  keyOrder := .key
  decoders := [setDecoder "b" 1 [.str "x"], setDecoder "a" 0 [.str "p", .str "q"]]
  selects := [{ select := .count, pull := .path ["doc_count"] }]

def crossQuery : Query where
  table := "t"
  selects := [.count]
  shape := .list
  edges := [.ofField "a", .ofField "b"]
  groupby := []
  condition := .literal (.bool true)
  sort := []
  limit := none
  format := .list
  save := false
  written := none

def crossRows : List Row :=
  [{ coord := [0, 1], node := .obj [("doc_count", .nat 5)] },
    { coord := [1, 2], node := .obj [("doc_count", .nat 3)] }]

/-- The second row is shown at the last place: as a row of nulls and its count in the table, as an
object without the nulls in the list, and behind the last indices in the cube. -/
theorem formats_agree_cross : crossQuery.isGroupby = false ∧ Plain crossPlan
    ∧ ∃ table objects cube,
      format { crossQuery with format := .table } crossPlan crossRows
          = .ok (.table ["a", "b", "count"] table)
        ∧ format { crossQuery with format := .list } crossPlan crossRows = .ok (.list objects)
        ∧ format { crossQuery with format := .cube } crossPlan crossRows = .ok cube
        ∧ table[1]? = some [.str "q", .str "x", .nat 5]
        ∧ objects[5]? = some (.obj [("count", .nat 3)])
        ∧ (cube.data.get? "count").bind (Json.cell? [1, 2]) = some (.nat 3) := by
  have hplain : Plain crossPlan := ⟨by decide, by decide⟩
  have hrows : ∀ row ∈ crossRows, Matrix.inside (dims crossPlan) row.coord = true := by decide
  have hnames : edgeNames crossPlan = ["a", "b"] := by cbv
  have hfirst : cellsAt crossPlan crossRows [0, 1] = .ok [.nat 5]
      ∧ edgeCells crossPlan [0, 1] = [.str "q", .str "x"] := ⟨rfl, by cbv⟩
  have hsecond : cellsAt crossPlan crossRows [1, 2] = .ok [.nat 3]
      ∧ edgeCells crossPlan [1, 2] = [.null, .null] := ⟨rfl, by cbv⟩
  refine ⟨rfl, hplain, ?_⟩
  obtain ⟨hcells, -⟩ | ⟨table, objects, cube, htable, hlist, hcube, -, -, hagree⟩ :=
    formats_agree (q := crossQuery) rfl (List.cons_ne_nil _ _) hplain hrows
  · exact absurd hcells.2 (by decide +kernel)
  · rw [hnames] at htable hagree
    obtain ⟨cells, hcells, -, hrow, -⟩ := hagree [0, 1] rfl
    obtain ⟨others, hothers, -, -, hobject, harrays⟩ := hagree [1, 2] rfl
    obtain rfl := Except.ok.inj (hfirst.1.symm.trans hcells)
    obtain rfl := Except.ok.inj (hsecond.1.symm.trans hothers)
    rw [hfirst.2] at hrow
    rw [hsecond.2] at hobject
    exact ⟨table, objects, cube, htable, hlist, hcube, hrow, hobject,
      harrays ("count", .nat 3) (List.mem_singleton_self _)⟩

end Grouping

end Tabula
