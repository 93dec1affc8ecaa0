import Mathlib.Data.List.Perm.Subperm
import Tabula.Proofs.Hits.Headers
import Tabula.Proofs.Hits.Leaves
import Tabula.Proofs.Json.Fields
import Tabula.Run.Compiled

/-!
# Cubes of hits

The cube of a projection holds the columns of its table, but by name and not by position
(`Hits.holdsLast_ofList`): of several columns with one name only the last is left. It keeps all
columns exactly when the header has no name twice (`Hits.keepsColumns_iff`), and so when the selects
that are shown have distinct first names (`Hits.cube_columns`). That the selects have distinct names
does not suffice.
-/

set_option autoImplicit false

namespace Tabula.Hits

/-! ## Columns by position and by name -/

def column (table : List (List Json)) (j : Nat) : Json :=
  .arr (table.map fun row => (row[j]?).getD .null)

/-- Whether an object has an entry for each position of a header, which is the column there. -/
structure KeepsColumns (header : List String) (table : List (List Json)) (data : Fields) :
    Prop where
  length : data.length = header.length
  column : ∀ (j : Nat) (name : String), header[j]? = some name →
    Fields.get? name data = some (column table j)

/-- Whether an object has an entry for each name of a header, which is the last column of it. -/
structure HoldsLast (header : List String) (table : List (List Json)) (data : Fields) : Prop where
  nodup : (data.map (·.1)).Nodup
  names : ∀ name, name ∈ data.map (·.1) ↔ name ∈ header
  last : ∀ (j : Nat) (name : String), header[j]? = some name →
    (∀ k, j < k → header[k]? ≠ some name) → Fields.get? name data = some (column table j)

def namedColumns (header : List String) (table : List (List Json)) : List (String × Json) :=
  (List.range header.length).map fun j => ((header[j]?).getD "", column table j)

section Columns

variable {header : List String} {table : List (List Json)}

theorem names_namedColumns : (namedColumns header table).map (·.1) = header := by
  refine List.ext_getElem (by simp [namedColumns]) fun j _ hj => ?_
  simp [namedColumns, hj]

theorem getElem?_namedColumns (table : List (List Json)) {j : Nat} {name : String}
    (h : header[j]? = some name) :
    (namedColumns header table)[j]? = some (name, column table j) := by
  obtain ⟨hj, rfl⟩ := List.getElem?_eq_some_iff.mp h
  simp [namedColumns, hj]

/-- **Of the columns of one name the last one is left.** -/
theorem holdsLast_ofList :
    HoldsLast header table (Fields.ofList (namedColumns header table)) := by
  obtain ⟨hnodup, hnames⟩ := Fields.names_ofList (namedColumns header table)
  rw [names_namedColumns] at hnames
  refine ⟨hnodup, hnames, fun j name hj hlast => ?_⟩
  obtain ⟨hlt, hentry⟩ := List.getElem?_eq_some_iff.mp (getElem?_namedColumns table hj)
  have hafter : name ∉ ((namedColumns header table).drop (j + 1)).map (·.1) := by
    rw [List.map_drop, names_namedColumns]
    intro hmem
    obtain ⟨k, hk⟩ := List.mem_iff_getElem?.mp hmem
    rw [List.getElem?_drop] at hk
    exact hlast (j + 1 + k) (by omega) hk
  have hsplit : namedColumns header table = (namedColumns header table).take j
      ++ (name, column table j) :: (namedColumns header table).drop (j + 1) := by
    rw [← hentry, ← List.drop_eq_getElem_cons hlt, List.take_append_drop]
  rw [hsplit]
  exact Fields.get?_ofList_of_last hafter _

/-- **All columns are kept exactly when no two have one name.** -/
theorem keepsColumns_iff :
    KeepsColumns header table (Fields.ofList (namedColumns header table)) ↔ header.Nodup := by
  constructor
  · rintro ⟨hlength, -⟩
    obtain ⟨hnodup, hnames⟩ := Fields.names_ofList (namedColumns header table)
    rw [names_namedColumns] at hnames
    have hsub := List.subperm_of_subset hnodup fun name h => (hnames name).mp h
    have hperm := hsub.perm_of_length_le (by rw [List.length_map, hlength])
    exact hperm.nodup_iff.mp hnodup
  · intro hnodup
    have hentries : ((namedColumns header table).map (·.1)).Nodup := by
      rwa [names_namedColumns]
    rw [Fields.ofList_eq hentries]
    refine ⟨by simp [namedColumns], fun j name hj => ?_⟩
    exact Fields.get?_of_mem hentries (List.mem_of_getElem? (getElem?_namedColumns table hj))

end Columns

/-! ## Tables and cubes of one response -/

variable {catalog : Catalog} {options : Options} {q : Query} {p : HitsPlan}

/-- The rows of a response, when they can all be shown. -/
def shownRows (p : HitsPlan) (response : Json) : QueryResult (List HitRow) := do
  let rows ← rows p response
  if rows.any fun row => p.selects.any fun s => isTooLong row s.pull then .error .tooLong
  else .ok rows

theorem format_eq (q : Query) (p : HitsPlan) (response : Json) :
    format q p response = (shownRows p response).map fun rows =>
      match q.format with
      | .list => .list (rows.map (listRow q p))
      | .table => .table (header q p) (rows.map (tableRow p))
      | .cube => cube (header q p) (rows.map (tableRow p)) := by
  unfold format shownRows
  cases rows p response with
  | error e => rfl
  | ok rows =>
      rw [Results.ok_bind, Results.ok_bind]
      split <;> rfl

/-- A cube with an edge for its rows, by the entries of its data. -/
def rowCube (count : Nat) (data : Fields) : Formatted :=
  { format := "cube", header := none, edges := some [rowEdge count], data := .obj data }

/-- **What a cube keeps of the columns of a table.** A response gives a table exactly when it gives
a cube. The cube has the last column of each name in the header, and every column of the table at
its position exactly when the names of the selects that are shown are distinct. -/
theorem cube_columns (h : compile catalog options q = .ok p) (response : Json) :
    header q p = (shown catalog q).map (shownName catalog q)
      ∧ ((∃ e, (Compiled.hits p).decode { q with format := .table } response = .error e
          ∧ (Compiled.hits p).decode { q with format := .cube } response = .error e)
        ∨ ∃ table data,
          (Compiled.hits p).decode { q with format := .table } response
            = .ok (.table (header q p) table)
          ∧ (Compiled.hits p).decode { q with format := .cube } response
            = .ok (rowCube table.length data)
          ∧ HoldsLast (header q p) table data
          ∧ (KeepsColumns (header q p) table data
            ↔ ((shown catalog q).map (shownName catalog q)).Nodup)) := by
  have hheader := header_eq h
  refine ⟨hheader, ?_⟩
  have hdecode (shape : Format) : (Compiled.hits p).decode { q with format := shape } response
      = format { q with format := shape } p response := rfl
  rw [hdecode, hdecode, format_eq, format_eq]
  cases shownRows p response with
  | error e => exact Or.inl ⟨e, rfl, rfl⟩
  | ok rows =>
      refine Or.inr ⟨rows.map (tableRow p), _, rfl, rfl, holdsLast_ofList, ?_⟩
      rw [← hheader]
      exact keepsColumns_iff

/-! ## Two fields -/

def fieldsQuery (fields : List String) : Query where
  table := "t"
  selects := fields.map fun name =>
    { name, value := .var name, aggregate := .plain, percentile := none, default := .null }
  shape := .list
  edges := []
  groupby := []
  condition := .literal (.bool true)
  sort := []
  limit := none
  format := .cube
  save := false
  written := none

/-- A field of a document, and two of an object in it. -/
def objectCatalog : Catalog :=
  .overRoot "t" [numberColumn "a", numberColumn "o.x", numberColumn "o.y"]

def fieldsPlan (field other : String) : HitsPlan :=
  leavesPlan
    [{ name := field, put := { name := field, index := 0, child := "." },
        pull := .column field false },
      { name := other, put := { name := other, index := 1, child := "." },
        pull := .column other false }]
    [field, other]

def objectResponse : Json :=
  .obj [("hits", .obj [("hits", .arr [
    .obj [("fields", .obj [("a", .arr [.nat 1]), ("o.x", .arr [.nat 2]), ("o.y", .arr [.nat 3])])],
    .obj [("fields", .obj [("o.x", .arr [.nat 4]), ("o.y", .arr [.nat 5])])]])])]

theorem cube_columns_kept :
    compile objectCatalog .default (fieldsQuery ["a", "o.x"]) = .ok (fieldsPlan "a" "o.x")
      ∧ ∃ table data,
        (Compiled.hits (fieldsPlan "a" "o.x")).decode
            { fieldsQuery ["a", "o.x"] with format := .table } objectResponse
          = .ok (.table ["a", "o"] table)
        ∧ (Compiled.hits (fieldsPlan "a" "o.x")).decode (fieldsQuery ["a", "o.x"]) objectResponse
          = .ok (rowCube table.length data)
        ∧ KeepsColumns ["a", "o"] table data := by
  have hplan : compile objectCatalog .default (fieldsQuery ["a", "o.x"])
      = .ok (fieldsPlan "a" "o.x") := rfl
  obtain ⟨-, ⟨e, herror, -⟩ | ⟨table, data, htable, hcube, -, hkeeps⟩⟩ :=
    cube_columns hplan objectResponse
  · cases herror
  · exact ⟨hplan, table, data, htable, hcube, hkeeps.mpr (by decide +kernel)⟩

/-- **Two fields of one object are one column of a cube**: the table shows both, the cube only the
second. -/
theorem cube_columns_lost :
    compile objectCatalog .default (fieldsQuery ["o.x", "o.y"]) = .ok (fieldsPlan "o.x" "o.y")
      ∧ ((fieldsQuery ["o.x", "o.y"]).selects.map (·.name)).Nodup
      ∧ (Compiled.hits (fieldsPlan "o.x" "o.y")).decode
          { fieldsQuery ["o.x", "o.y"] with format := .table } objectResponse
        = .ok (.table ["o", "o"] [[.nat 2, .nat 3], [.nat 4, .nat 5]])
      ∧ (Compiled.hits (fieldsPlan "o.x" "o.y")).decode (fieldsQuery ["o.x", "o.y"]) objectResponse
        = .ok (rowCube 2 [("o", .arr [.nat 3, .nat 5])])
      ∧ ¬ KeepsColumns ["o", "o"] [[.nat 2, .nat 3], [.nat 4, .nat 5]]
          [("o", .arr [.nat 3, .nat 5])] := by
  refine ⟨rfl, by decide, rfl, rfl, fun hkeeps => ?_⟩
  have hlength := hkeeps.length
  cases hlength

end Tabula.Hits
