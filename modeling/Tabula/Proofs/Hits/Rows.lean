import Tabula.Hits.Format
import Tabula.Proofs.Json.Paths
import Tabula.Proofs.Path.Names

/-!
# Rows of hits

A row is what its values write one after another: the row of a list at the name and child of each
(`Hits.listRow_eq`), a cell of a table at the child alone (`Hits.cell_eq`). The values of one select
share a cell, and the table shows all of them exactly when any two agree there
(`Hits.inTable_iff_agreeing`).
-/

set_option autoImplicit false

namespace Tabula.Hits

variable {q : Query} {p : HitsPlan} {row : HitRow}

/-! ## Where values go -/

theorem putChild_eq (child : String) (value cell : Json) :
    putChild child value cell = Json.setAt (Path.places child) value cell := by
  unfold putChild Path.places
  split
  next => rfl
  next => rw [Json.setAt_eq (Path.names_ne_nil child), Fields.setPath]

/-- The places of a value in the row of a list. -/
def listPlaces (q : Query) (t : HitSelect) : List String :=
  if isScalar q then Path.places t.put.child else t.put.name :: Path.places t.put.child

def listEntry (q : Query) (row : HitRow) (t : HitSelect) : List String × Json :=
  (listPlaces q t, read row t.pull)

def cellEntry (row : HitRow) (t : HitSelect) : List String × Json :=
  (Path.places t.put.child, read row t.pull)

def valued (p : HitsPlan) (row : HitRow) : List HitSelect :=
  p.selects.filter fun t => !(read row t.pull).isNull

def valuedAt (p : HitsPlan) (row : HitRow) (i : Nat) : List HitSelect :=
  (valued p row).filter (·.put.index == i)

theorem addToRow_eq (q : Query) (t : HitSelect) (value v : Json) :
    addToRow (isScalar q) t value v = Json.setAt (listPlaces q t) value v := by
  unfold addToRow listPlaces
  cases isScalar q with
  | true => exact putChild_eq _ _ _
  | false =>
      simp only [Bool.false_eq_true, if_false]
      rw [putChild_eq, Json.setAt]

theorem listRow_eq :
    listRow q p row = Json.setAll ((valued p row).map (listEntry q row)) .null := by
  have hfold (selects : List HitSelect) (v : Json) :
      selects.foldl (fun out t =>
        let value := read row t.pull
        if value.isNull then out else addToRow (isScalar q) t value out) v
      = Json.setAll ((selects.filter fun t => !(read row t.pull).isNull).map (listEntry q row))
          v := by
    induction selects generalizing v with
    | nil => rfl
    | cons t selects ih =>
        rw [List.foldl_cons, ih]
        cases h : (read row t.pull).isNull with
        | true => simp [h]
        | false => simp [h, Json.setAll, addToRow_eq, listEntry]
  exact hfold p.selects .null

/-- A cell of a table is what the values of its select write, one after another. -/
theorem cell_eq {i : Nat} (hi : i < tableWidth p) :
    (tableRow p row)[i]? = some (Json.setAll ((valuedAt p row i).map (cellEntry row)) .null) := by
  -- on the selects, for any cell that was filled before
  have hfold (selects : List HitSelect) {cells : List Json} {cell : Json}
      (hcell : cells[i]? = some cell) :
      (selects.foldl (fun cells t =>
        let value := read row t.pull
        if value.isNull then cells else cells.modify t.put.index (putChild t.put.child value))
        cells)[i]?
      = some (Json.setAll (((selects.filter fun t => !(read row t.pull).isNull).filter
          (·.put.index == i)).map (cellEntry row)) cell) := by
    induction selects generalizing cells cell with
    | nil => exact hcell
    | cons t selects ih =>
        rw [List.foldl_cons]
        cases h : (read row t.pull).isNull with
        | true => simpa [h] using ih hcell
        | false =>
            by_cases hindex : t.put.index = i
            · have hset : (cells.modify t.put.index (putChild t.put.child (read row t.pull)))[i]?
                  = some (Json.setAt (Path.places t.put.child) (read row t.pull) cell) := by
                simp [hindex, hcell, putChild_eq]
              simpa [h, hindex, Json.setAll, cellEntry] using ih hset
            · have hother : (cells.modify t.put.index (putChild t.put.child (read row t.pull)))[i]?
                  = some cell := by
                simpa [hindex] using hcell
              simpa [h, hindex] using ih hother
  exact hfold p.selects (by rw [List.getElem?_replicate, if_pos hi])

/-- A table is wide enough for all of its columns, and no wider. -/
theorem tableWidth_le_iff {n : Nat} : tableWidth p ≤ n ↔ ∀ t ∈ p.selects, t.put.index < n := by
  have hfold (selects : List HitSelect) (m : Nat) :
      selects.foldl (fun m t => max m (t.put.index + 1)) m ≤ n
        ↔ m ≤ n ∧ ∀ t ∈ selects, t.put.index < n := by
    induction selects generalizing m with
    | nil => simp
    | cons t selects ih =>
        rw [List.foldl_cons, ih, List.forall_mem_cons, ← and_assoc]
        exact and_congr_left fun _ => by omega
  exact (hfold p.selects 0).trans (and_iff_right (Nat.zero_le n))

theorem index_lt_tableWidth {t : HitSelect} (h : t ∈ p.selects) : t.put.index < tableWidth p :=
  tableWidth_le_iff.mp Nat.le.refl t h

/-! ## What rows show -/

/-- The row of a list shows the value of a select in its place. -/
def InList (q : Query) (p : HitsPlan) (row : HitRow) (t : HitSelect) : Prop :=
  (listRow q p row).atPath? (listPlaces q t) = some (read row t.pull)

/-- The row of a table shows the value of a select in its place. -/
def InTable (p : HitsPlan) (row : HitRow) (t : HitSelect) : Prop :=
  ∃ cell, (tableRow p row)[t.put.index]? = some cell
    ∧ cell.atPath? (Path.places t.put.child) = some (read row t.pull)

/-- Any two values of a select agree below the first names of their columns. -/
def Agreeing (p : HitsPlan) (row : HitRow) (i : Nat) : Prop :=
  ∀ t ∈ valuedAt p row i, ∀ t' ∈ valuedAt p row i, Json.Agree (cellEntry row t) (cellEntry row t')

theorem mem_valuedAt {i : Nat} {t : HitSelect} :
    t ∈ valuedAt p row i
      ↔ (t ∈ p.selects ∧ (read row t.pull).isNull = false) ∧ t.put.index = i := by
  rw [valuedAt, valued, List.mem_filter, List.mem_filter, Bool.not_eq_true', beq_iff_eq]

/-- **A table shows all values of a select exactly when any two of them agree.** -/
theorem inTable_iff_agreeing (p : HitsPlan) (row : HitRow) (i : Nat) :
    (∀ t ∈ valuedAt p row i, InTable p row t) ↔ Agreeing p row i := by
  have hshown : (∀ t ∈ valuedAt p row i, InTable p row t)
      ↔ ∀ entry ∈ (valuedAt p row i).map (cellEntry row),
        (Json.setAll ((valuedAt p row i).map (cellEntry row)) .null).atPath? entry.1
          = some entry.2 := by
    rw [List.forall_mem_map]
    refine forall₂_congr fun t ht => ?_
    obtain ⟨⟨hmem, -⟩, hindex⟩ := mem_valuedAt.mp ht
    unfold InTable
    rw [hindex, cell_eq (hindex ▸ index_lt_tableWidth hmem)]
    simp [cellEntry]
  rw [hshown, Json.kept_iff_agree, List.forall_mem_map]
  exact forall₂_congr fun t _ => List.forall_mem_map

/-- A list shows a value that agrees with all others of the row. -/
theorem inList_of_agree {t : HitSelect} (ht : t ∈ valued p row)
    (h : ∀ t' ∈ valued p row, Json.Agree (listEntry q row t) (listEntry q row t')) :
    InList q p row t := by
  unfold InList
  rw [listRow_eq]
  exact Json.atPath?_setAll (List.mem_map_of_mem ht) (List.forall_mem_map.mpr h) .null

end Tabula.Hits
