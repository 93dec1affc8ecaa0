import Tabula.Proofs.Hits.Rows
import Tabula.Proofs.Hits.Selects
import Tabula.Proofs.Schema.Documents

/-!
# Leaves in rows

A select of all leaves has one column in a table, however many columns it reads. The table keeps
what the list shows of them when they agree below their first names, and otherwise only when another
select is in the way of the list (`Hits.leaves_kept`). Under a name of its own such a select puts
their names below it (`Hits.agreeing_of_named`); without a name it leaves their first names out.
-/

set_option autoImplicit false

namespace Tabula.Hits

variable {catalog : Catalog} {options : Options} {q : Query} {p : HitsPlan}

/-! ## Leaves -/

/-- Whether the leaves that a select expands to go by distinct names, none of which leads into
another, as the select names them. -/
structure Distinct (catalog : Catalog) (path : String) : Prop where
  wellFormed : ∀ c ∈ leafColumns catalog path, Path.WellFormed (leafName catalog path c)
  apart : ∀ c ∈ leafColumns catalog path, ∀ c' ∈ leafColumns catalog path, c ≠ c' →
    ¬ Path.Comparable (leafName catalog path c) (leafName catalog path c')

/-- **In a query over whole documents the names of the columns decide**: leaves are distinct for a
select when no part of their names is empty and no name is another or leads into it. -/
theorem distinct_of_names {path : String} (hroot : catalog.queryDepth = Path.root)
    (hwf : ∀ c ∈ leafColumns catalog path, "" ∉ Path.names c.name)
    (hapart : ∀ c ∈ leafColumns catalog path, ∀ c' ∈ leafColumns catalog path, c ≠ c' →
      ¬ Path.Comparable c.name c'.name) : Distinct catalog path := by
  have hleaf (c : Column) : leafName catalog path c = Path.relative c.name path := by
    rw [leafName, hroot]
    exact congrArg (Path.relative · path) (if_pos rfl)
  have hcontains : ∀ c ∈ leafColumns catalog path, Path.contains path c.name = true := fun c hc =>
    ((Catalog.mem_leaves_iff hroot).mp (List.mem_filter.mp hc).1).2.2
  constructor
  · intro c hc
    rw [hleaf]
    exact Path.wellFormed_relative (hcontains c hc) (hwf c hc)
  · intro c hc c' hc' hne hcomp
    rw [hleaf, hleaf] at hcomp
    refine hapart c hc c' hc' hne (hcomp.imp ?_ ?_)
    · exact Path.contains_of_relative (hcontains c hc) (hwf c hc) (hcontains c' hc') (hwf c' hc')
    · exact Path.contains_of_relative (hcontains c' hc') (hwf c' hc') (hcontains c hc) (hwf c hc)

/-- What is read into the column of a select of leaves are its leaves. -/
theorem exists_leaf (h : compile catalog options q = .ok p) {i : Nat} {s : Select} {path : String}
    (hs : q.selects[i]? = some s) (hpath : s.value = .leaves path) {t : HitSelect}
    (ht : t ∈ p.selects) (hindex : t.put.index = i) :
    ∃ c ∈ leafColumns catalog path, t = leafSelect catalog i s path c := by
  obtain ⟨scripts, hselects, -⟩ := compile_eq_ok h
  obtain ⟨j, s', own, script, hs', hj, hplan, hown⟩ := mem_planSelects hselects ht
  obtain rfl : i = j := by omega
  rw [Nat.zero_add] at hplan
  obtain rfl : s = s' := Option.some.inj (hs.symm.trans hs')
  simp only [planSelect, hpath] at hplan
  cases hplan
  rw [leafSelects_eq] at hown
  obtain ⟨c, hc, rfl⟩ := List.mem_map.mp hown
  exact ⟨c, hc, rfl⟩

section Leaves

variable {i : Nat} {s : Select} {path : String} (h : compile catalog options q = .ok p)
  (hs : q.selects[i]? = some s) (hpath : s.value = .leaves path) (hnames : Distinct catalog path)
include h hs hpath hnames

/-- Two leaves of a select are one, or their names in the row stand below the name of the select,
apart from each other. -/
theorem eq_or_apart {t t' : HitSelect} (ht : t ∈ p.selects) (hi : t.put.index = i)
    (ht' : t' ∈ p.selects) (hi' : t'.put.index = i) :
    t = t' ∨ ∃ names names', Json.Apart names names'
      ∧ t.put.name :: Path.places t.put.child = Path.places s.name ++ names
      ∧ t'.put.name :: Path.places t'.put.child = Path.places s.name ++ names' := by
  obtain ⟨c, hc, rfl⟩ := exists_leaf h hs hpath ht hi
  obtain ⟨c', hc', rfl⟩ := exists_leaf h hs hpath ht' hi'
  by_cases heq : c = c'
  · exact Or.inl (by rw [heq])
  · have hapart := hnames.apart c hc c' hc' heq
    obtain ⟨hroot, hroot'⟩ := Path.ne_root_of_not_comparable hapart
    exact Or.inr ⟨_, _, Path.not_prefix_of_not_comparable hapart,
      Path.splitHead_join hroot (hnames.wellFormed c hc),
      Path.splitHead_join hroot' (hnames.wellFormed c' hc')⟩

/-- **Leaves below a name of their own agree**, since the cell leaves out no more than that name. -/
theorem agreeing_of_named (hname : s.name ≠ Path.root) (row : HitRow) : Agreeing p row i := by
  intro t ht t' ht'
  obtain ⟨⟨hmem, -⟩, hi⟩ := mem_valuedAt.mp ht
  obtain ⟨⟨hmem', -⟩, hi'⟩ := mem_valuedAt.mp ht'
  rcases eq_or_apart h hs hpath hnames hmem hi hmem' hi' with
    rfl | ⟨names, names', hapart, hplace, hplace'⟩
  · exact Json.agree_refl _
  · obtain ⟨head, tail, hhead⟩ := List.exists_cons_of_ne_nil (Path.names_ne_nil s.name)
    have hplaces : Path.places s.name = head :: tail := by
      rw [Path.places, if_neg hname, hhead]
    rw [hplaces, List.cons_append] at hplace hplace'
    refine Json.agree_of_apart ?_
    show Json.Apart (Path.places t.put.child) (Path.places t'.put.child)
    rw [(List.cons.inj hplace).2, (List.cons.inj hplace').2, Json.apart_append]
    exact hapart

/-- Whether what other selects write into the row of a list goes by other names. -/
structure Alone (q : Query) (p : HitsPlan) (i : Nat) : Prop where
  isObject : isScalar q = false
  apart : ∀ t ∈ p.selects, t.put.index = i → ∀ t' ∈ p.selects, t'.put.index ≠ i →
    t'.put.name ≠ t.put.name

/-- **A list shows all leaves** when no other select writes under their names. -/
theorem inList_of_alone (halone : Alone q p i) {row : HitRow} {t : HitSelect}
    (ht : t ∈ valuedAt p row i) : InList q p row t := by
  obtain ⟨⟨hmem, hvalue⟩, hi⟩ := mem_valuedAt.mp ht
  refine inList_of_agree (List.mem_of_mem_filter ht) fun t' ht' => ?_
  have hmem' : t' ∈ p.selects := List.mem_of_mem_filter ht'
  have hplaces (t : HitSelect) : listPlaces q t = t.put.name :: Path.places t.put.child := by
    rw [listPlaces, halone.isObject]
    rfl
  -- leaves of one select differ below its name, other selects differ in the name
  by_cases hi' : t'.put.index = i
  · rcases eq_or_apart h hs hpath hnames hmem hi hmem' hi' with
      rfl | ⟨names, names', hapart, hplace, hplace'⟩
    · exact Json.agree_refl _
    · refine Json.agree_of_apart ?_
      show Json.Apart (listPlaces q t) (listPlaces q t')
      rw [hplaces, hplaces, hplace, hplace', Json.apart_append]
      exact hapart
  · refine Json.agree_of_apart ?_
    show Json.Apart (listPlaces q t) (listPlaces q t')
    have hne := halone.apart t hmem hi t' hmem' hi'
    rw [hplaces, hplaces]
    exact ⟨fun hp => hne (List.cons_prefix_cons.mp hp).1.symm,
      fun hp => hne (List.cons_prefix_cons.mp hp).1⟩

end Leaves

/-! ## Tables keep what lists show -/

/-- Each value that the row of a list shows for a leaf is in the row of a table. -/
def Kept (q : Query) (p : HitsPlan) (row : HitRow) (i : Nat) : Prop :=
  ∀ t ∈ valuedAt p row i, InList q p row t → InTable p row t

/-- When a table keeps the leaves of a select that a list shows. -/
structure KeptWhen (q : Query) (p : HitsPlan) (row : HitRow) (i : Nat) (s : Select) : Prop where
  /-- When they agree below their first names. -/
  agreeing : Agreeing p row i → Kept q p row i
  /-- When the select has a name. -/
  named : s.name ≠ Path.root → Kept q p row i
  /-- In no other case, if the list shows all of them. -/
  only : (∀ t ∈ valuedAt p row i, InList q p row t) → Kept q p row i → Agreeing p row i
  /-- The list does so if no other select writes under their names. -/
  shown : Alone q p i → ∀ t ∈ valuedAt p row i, InList q p row t

/-- **When a table keeps the leaves that a list shows.** -/
theorem leaves_kept (h : compile catalog options q = .ok p) {i : Nat} {s : Select} {path : String}
    (hs : q.selects[i]? = some s) (hpath : s.value = .leaves path)
    (hnames : Distinct catalog path) (row : HitRow) : KeptWhen q p row i s := by
  have hkept (hagree : Agreeing p row i) : Kept q p row i := fun t ht _ =>
    (inTable_iff_agreeing p row i).mpr hagree t ht
  refine ⟨hkept, fun hname => ?_, fun hshown hkept => ?_, fun halone t ht => ?_⟩
  · exact hkept (agreeing_of_named h hs hpath hnames hname row)
  · exact (inTable_iff_agreeing p row i).mp fun t ht => hkept t ht (hshown t ht)
  · exact inList_of_alone h hs hpath hnames halone ht

theorem alone_of_single (h : compile catalog options q = .ok p) {s : Select} {path : String}
    (hs : q.selects = [s]) (hpath : s.value = .leaves path) : Alone q p 0 where
  isObject := by simp [isScalar, hs, hpath]
  apart t _ _ t' ht' hne := by
    obtain ⟨scripts, hselects, -⟩ := compile_eq_ok h
    obtain ⟨i, s', own, script, hs', hindex, -⟩ := mem_planSelects hselects ht'
    rw [hs] at hs'
    cases i with
    | zero => exact absurd hindex hne
    | succ i => cases hs'

/-! ## Points and letters -/

def numberColumn (name : String) : Column where
  name
  stored := name
  mapping := "double"
  type := .number
  nestedPath := ["."]

def leavesQuery (name path : String) : Query where
  table := "t"
  selects :=
    [{ name, value := .leaves path, aggregate := .plain, percentile := none, default := .null }]
  shape := .single
  edges := []
  groupby := []
  condition := .literal (.bool true)
  sort := []
  limit := none
  format := .table
  save := false
  written := none

def leavesPlan (selects : List HitSelect) (stored : List String) : HitsPlan where
  queryDepth := "."
  limit := 10
  fetched := { stored, inner := [], nested := [], scripts := [] }
  conditions := []
  sort := []
  selects

def pointsCatalog : Catalog := .overRoot "t" [numberColumn "point.x", numberColumn "point.y"]

/-- Points, under the name of the object that holds their fields. -/
def pointsPlan : HitsPlan :=
  leavesPlan
    [{ name := "point", put := { name := "point", index := 0, child := "x" },
        pull := .column "point.x" false },
      { name := "point", put := { name := "point", index := 0, child := "y" },
        pull := .column "point.y" false }]
    ["point.x", "point.y"]

def pointsRow : HitRow where
  hit := .obj [("fields", .obj [("point.x", .arr [.nat 1]), ("point.y", .arr [.nat 2])])]
  inner := none

theorem compile_points :
    compile pointsCatalog .default (leavesQuery "point" "point") = .ok pointsPlan := by
  rfl

theorem distinct_points : Distinct pointsCatalog "point" :=
  distinct_of_names rfl (by decide +kernel) (by decide +kernel)

/-- The table shows both fields, as the list does, and so they agree. -/
theorem leaves_kept_points :
    compile pointsCatalog .default (leavesQuery "point" "point") = .ok pointsPlan
      ∧ Distinct pointsCatalog "point"
      ∧ listRow (leavesQuery "point" "point") pointsPlan pointsRow
        = .obj [("point", .obj [("x", .nat 1), ("y", .nat 2)])]
      ∧ tableRow pointsPlan pointsRow = [.obj [("x", .nat 1), ("y", .nat 2)]]
      ∧ Kept (leavesQuery "point" "point") pointsPlan pointsRow 0
      ∧ Agreeing pointsPlan pointsRow 0 := by
  have hwhen : KeptWhen (leavesQuery "point" "point") pointsPlan pointsRow 0
      (leavesQuery "point" "point").selects[0] :=
    leaves_kept compile_points rfl rfl distinct_points pointsRow
  have hkept := hwhen.named (by decide)
  have hshown := hwhen.shown (alone_of_single compile_points rfl rfl)
  exact ⟨compile_points, distinct_points, rfl, rfl, hkept, hwhen.only hshown hkept⟩

def lettersCatalog : Catalog := .overRoot "t" [numberColumn "a", numberColumn "b"]

/-- All leaves, without a name: each is its own first name, and has no child. -/
def lettersPlan : HitsPlan :=
  leavesPlan
    [{ name := "a", put := { name := "a", index := 0, child := "." }, pull := .column "a" false },
      { name := "b", put := { name := "b", index := 0, child := "." }, pull := .column "b" false }]
    ["a", "b"]

def lettersRow : HitRow where
  hit := .obj [("fields", .obj [("a", .arr [.nat 1]), ("b", .arr [.nat 2])])]
  inner := none

/-- **Leaves without a name are lost**: the list shows both fields, and the table only the later
one. -/
theorem leaves_not_kept_letters :
    compile lettersCatalog .default (leavesQuery "." ".") = .ok lettersPlan
      ∧ Distinct lettersCatalog "."
      ∧ listRow (leavesQuery "." ".") lettersPlan lettersRow
        = .obj [("a", .nat 1), ("b", .nat 2)]
      ∧ tableRow lettersPlan lettersRow = [.nat 2]
      ∧ ¬ Kept (leavesQuery "." ".") lettersPlan lettersRow 0 := by
  refine ⟨rfl, distinct_of_names rfl (by decide +kernel) (by decide +kernel), rfl, rfl, ?_⟩
  intro h
  obtain ⟨cell, hcell, hshown⟩ := h lettersPlan.selects[0] List.mem_cons_self rfl
  -- the cell is the value of the later field, and is shown as that of the first
  obtain rfl : Json.nat 2 = cell := Option.some.inj hcell
  cases hshown

end Tabula.Hits
