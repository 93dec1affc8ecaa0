import Mathlib.Data.List.DropRight
import Tabula.Proofs.Hits.Rows
import Tabula.Proofs.Hits.Selects

/-!
# Headers of tables

The header of a table follows from the selects of the query and the catalog (`Hits.header_eq`): each
select names one column by the first name of what it reads (`Hits.shownName`), and the last selects
have none when they read nothing (`Hits.shown`).
-/

set_option autoImplicit false

namespace Tabula.Hits

/-! ## Names of columns -/

def readsNothing (catalog : Catalog) (s : Select) : Bool :=
  match s.value with
  | .leaves path => (leafColumns catalog path).isEmpty
  | _ => false

def shown (catalog : Catalog) (q : Query) : List Select :=
  q.selects.rdropWhile (readsNothing catalog)

/-- The one that names a column, of those in it: the first, or the last for a single value. -/
def naming {α : Type} (q : Query) (inColumn : List α) : Option α :=
  if isScalar q then inColumn.getLast? else inColumn.head?

def firstName (catalog : Catalog) (s : Select) (path : String) (c : Column) : String :=
  (Path.splitHead (Path.join s.name (leafName catalog path c))).1

/-- The name of the column of a select: the first name of its own, which is whole for a single
value, or the first name of a leaf. -/
def shownName (catalog : Catalog) (q : Query) (s : Select) : String :=
  match s.value with
  | .leaves path => ((naming q (leafColumns catalog path)).map (firstName catalog s path)).getD ""
  | _ => if isScalar q || s.name = Path.root then s.name else (Path.splitHead s.name).1

theorem naming_map {α β : Type} (q : Query) (f : α → β) (xs : List α) :
    naming q (xs.map f) = (naming q xs).map f := by
  unfold naming
  rw [List.getLast?_map, List.head?_map]
  split <;> rfl

theorem exists_naming {α : Type} (q : Query) {xs : List α} (h : xs ≠ []) :
    ∃ x ∈ xs, naming q xs = some x := by
  unfold naming
  split
  next => exact ⟨xs.getLast h, List.getLast_mem h, List.getLast?_eq_some_getLast h⟩
  next => exact ⟨xs.head h, List.head_mem h, List.head?_eq_some_head h⟩

/-! ## What a select reads -/

variable {catalog : Catalog} {index : Nat} {s : Select} {q : Query}

theorem documentColumns_eq_nil {columns : List Column} (h : documentColumns columns = []) :
    columns = [] := by
  rcases List.eq_nil_or_concat columns with hnil | ⟨init, c, rfl⟩
  · exact hnil
  · rw [documentColumns, List.concat_eq_append, List.foldl_append] at h
    exact absurd h (Text.addToGroup_ne_nil _ _ _)

/-- The columns of a field are read under the name of the select, and something is read in any
case. -/
theorem fieldSelects_named (field : String) : fieldSelects catalog index s field ≠ []
    ∧ ∀ t ∈ fieldSelects catalog index s field, t.name = s.name := by
  unfold fieldSelects
  simp only
  split
  next => simp
  next hne =>
      constructor
      · intro hnil
        obtain ⟨hupper, hlower⟩ := List.append_eq_nil_iff.mp hnil
        have habove := List.filter_eq_nil_iff.mp (List.map_eq_nil_iff.mp hupper)
        have hdocuments := documentColumns_eq_nil (List.map_eq_nil_iff.mp hlower)
        have hbelow := List.filter_eq_nil_iff.mp hdocuments
        refine hne (List.isEmpty_iff.mpr (List.eq_nil_iff_forall_not_mem.mpr fun c hc => ?_))
        exact habove c hc (by simpa using hbelow c hc)
      · intro t ht
        rcases List.mem_append.mp ht with ht | ht
        · obtain ⟨c, -, rfl⟩ := List.mem_map.mp ht
          rfl
        · obtain ⟨group, -, rfl⟩ := List.mem_map.mp ht
          rfl

/-- A select of no leaves reads something, all of it under its own name. -/
theorem planSelect_named {own : List HitSelect} {script : Option Script}
    (h : planSelect catalog index s = .ok (own, script)) (hs : ∀ path, s.value ≠ .leaves path) :
    own ≠ [] ∧ ∀ t ∈ own, t.name = s.name := by
  rcases planSelect_eq_ok h with ⟨path, hpath, -⟩ | ⟨rfl, -⟩ | ⟨field, -, rfl, -⟩ | ⟨_, rfl, -⟩
  · exact absurd hpath (hs path)
  · simp [wholeSelect]
  · exact fieldSelects_named field
  · simp [wholeSelect]

theorem planSelect_leaves {own : List HitSelect} {script : Option Script} {path : String}
    (h : planSelect catalog index s = .ok (own, script)) (hs : s.value = .leaves path) :
    own = (leafColumns catalog path).map (leafSelect catalog index s path) := by
  simp only [planSelect, hs] at h
  cases h
  exact leafSelects_eq path

/-- A select reads nothing when it is for leaves and there are none. -/
theorem readsNothing_eq {own : List HitSelect} {script : Option Script}
    (h : planSelect catalog index s = .ok (own, script)) :
    readsNothing catalog s = own.isEmpty := by
  unfold readsNothing
  split
  next path hpath =>
      rw [planSelect_leaves h hpath]
      simp
  next hs =>
      have hne := (planSelect_named h hs).1
      cases own with
      | nil => exact absurd rfl hne
      | cons t own => rfl

/-- A leaf is its own first name. -/
theorem columnName_leafSelect (path : String) (c : Column) :
    columnName q (leafSelect catalog index s path c) = firstName catalog s path c := by
  have hname : (leafSelect catalog index s path c).name = firstName catalog s path c := rfl
  rw [columnName, hname, firstName, Path.splitHead_fst, ite_self]

/-- **A column is named after its select**, or after the first or the last of the leaves. -/
theorem naming_planSelect {own : List HitSelect} {script : Option Script}
    (h : planSelect catalog index s = .ok (own, script)) :
    ((naming q own).map (columnName q)).getD "" = shownName catalog q s := by
  unfold shownName
  split
  next path hs =>
      rw [planSelect_leaves h hs, naming_map, Option.map_map]
      exact congrArg (Option.getD · "") (congrArg (Option.map · _)
        (funext (columnName_leafSelect path)))
  next hs =>
      obtain ⟨hne, hnamed⟩ := planSelect_named h hs
      obtain ⟨t, ht, hnaming⟩ := exists_naming q hne
      rw [hnaming, Option.map_some, Option.getD_some, columnName, hnamed t ht]

/-! ## Columns of a plan -/

/-- What is read into the column of a select is what the select reads. -/
theorem filter_index_planSelects {selects : List Select} {planned : List HitSelect}
    {scripts : List (String × Script)}
    (h : planSelects catalog index selects = .ok (planned, scripts)) {i : Nat}
    (hs : selects[i]? = some s) : ∃ script, planSelect catalog (index + i) s
      = .ok (planned.filter (·.put.index == index + i), script) := by
  induction selects generalizing index planned scripts i with
  | nil => cases hs
  | cons first rest ih =>
      obtain ⟨⟨own, script⟩, hown, h⟩ := Results.bind_eq_ok.mp h
      obtain ⟨⟨more, others⟩, hmore, h⟩ := Results.bind_eq_ok.mp h
      cases h
      -- a select reads into its own column, later ones into later columns
      have hfirst : ∀ t ∈ own, t.put.index = index := fun t ht => index_of_planSelect hown ht
      have hrest : ∀ t ∈ more, index < t.put.index := fun t ht => by
        obtain ⟨j, _, _, _, -, hindex, -⟩ := mem_planSelects hmore ht
        omega
      rw [List.filter_append]
      cases i with
      | zero =>
          cases hs
          refine ⟨script, ?_⟩
          have hall : own.filter (·.put.index == index + 0) = own :=
            List.filter_eq_self.mpr fun t ht => by simp [hfirst t ht]
          have hnone : more.filter (·.put.index == index + 0) = [] :=
            List.filter_eq_nil_iff.mpr fun t ht => by
              have := hrest t ht
              simp
              omega
          rw [hall, hnone, List.append_nil]
          exact hown
      | succ i =>
          have hnone : own.filter (·.put.index == index + (i + 1)) = [] :=
            List.filter_eq_nil_iff.mpr fun t ht => by simp [hfirst t ht]
          obtain ⟨script', hplan⟩ := ih hmore hs
          rw [hnone, List.nil_append, Nat.add_comm i 1, ← Nat.add_assoc]
          exact ⟨script', hplan⟩

variable {options : Options} {p : HitsPlan}

theorem shown_append (catalog : Catalog) (q : Query) :
    shown catalog q ++ q.selects.rtakeWhile (readsNothing catalog) = q.selects :=
  List.rdropWhile_append_rtakeWhile

theorem getElem?_shown (catalog : Catalog) (q : Query) {i : Nat}
    (hi : i < (shown catalog q).length) :
    q.selects[i]? = some (shown catalog q)[i] := by
  rw [← shown_append catalog q, List.getElem?_append_left hi, List.getElem?_eq_getElem hi]

/-- A table has a column for each select but the last that read nothing. -/
theorem tableWidth_eq (h : compile catalog options q = .ok p) :
    tableWidth p = (shown catalog q).length := by
  obtain ⟨scripts, hselects, -⟩ := compile_eq_ok h
  refine Nat.le_antisymm (tableWidth_le_iff.mpr fun t ht => ?_) ?_
  · obtain ⟨i, s, own, script, hs, hindex, hplan, hown⟩ := mem_planSelects hselects ht
    rw [hindex, Nat.zero_add]
    by_contra hout
    -- a select beyond the columns reads nothing, and this one reads `t`
    rw [← shown_append catalog q, List.getElem?_append_right (Nat.le_of_not_lt hout)] at hs
    have hnothing := List.mem_rtakeWhile_imp (List.mem_of_getElem? hs)
    rw [readsNothing_eq hplan, List.isEmpty_iff] at hnothing
    rw [hnothing] at hown
    cases hown
  · by_cases hnil : shown catalog q = []
    · rw [hnil]
      exact Nat.zero_le _
    · have hpos := List.length_pos_iff.mpr hnil
      have hlast := getElem?_shown catalog q (Nat.sub_one_lt_of_lt hpos)
      obtain ⟨script, hplan⟩ := filter_index_planSelects hselects hlast
      have hreads : ¬ readsNothing catalog ((shown catalog q).getLast hnil) = true :=
        List.rdropWhile_last_not _ _ hnil
      rw [List.getLast_eq_getElem] at hreads
      have hsome := mt (readsNothing_eq hplan).trans hreads
      obtain ⟨t, ht⟩ := List.exists_mem_of_ne_nil _ (mt List.isEmpty_iff.mpr hsome)
      obtain ⟨ht, hindex⟩ := List.mem_filter.mp ht
      have hwidth := index_lt_tableWidth ht
      rw [beq_iff_eq.mp hindex] at hwidth
      omega

/-- **The header of a table follows from the selects**, whatever the plan is. -/
theorem header_eq (h : compile catalog options q = .ok p) :
    header q p = (shown catalog q).map (shownName catalog q) := by
  obtain ⟨scripts, hselects, -⟩ := compile_eq_ok h
  rw [header, tableWidth_eq h]
  refine List.ext_getElem (by simp) fun i hi hi' => ?_
  have hlt : i < (shown catalog q).length := by simpa using hi
  have hs := getElem?_shown catalog q hlt
  obtain ⟨script, hplan⟩ := filter_index_planSelects hselects hs
  rw [List.getElem_map, List.getElem_range, List.getElem_map, ← naming_planSelect hplan,
    Nat.zero_add]
  rfl

end Tabula.Hits
