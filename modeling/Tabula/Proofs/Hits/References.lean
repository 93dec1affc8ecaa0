import Tabula.Proofs.Hits.Fetching
import Tabula.Proofs.Path.Relative
import Tabula.Proofs.Schema.Resolution

/-!
# Two spellings of a reference

In a query over nested documents a field can be named from these documents or from the root. Where
both spellings lead to the same leaves, the selects read the same columns into the same column of
the row (`Hits.spellings_alike_iff`). They do not put them in the same place: the name of a leaf is
taken from the documents, and then from the reference as it is spelt, so that a reference from the
root leaves a path below the column where the other one leaves none. The two come out alike only
when the rows themselves hold no column of the field, or it is all of the documents.
-/

set_option autoImplicit false

namespace Tabula

/-- Where a select puts its value and what it reads, whatever the output column is called. -/
def HitSelect.unnamed (t : HitSelect) : Nat × String × HitPull := (t.put.index, t.put.child, t.pull)

/-- What a select reads, and the column of the row that it goes to. -/
def HitSelect.read (t : HitSelect) : Nat × HitPull := (t.put.index, t.pull)

namespace Hits

variable {catalog : Catalog} {options : Options} {index : Nat} {s s' : Select} {field : String}

/-! ## The columns of a field -/

def fieldColumns (catalog : Catalog) (field : String) : List Column :=
  (catalog.leaves field).filter fun c => isShown c && c.stored != "_id"

/-- Those of them that the rows, or the documents around them, hold. -/
def rowColumns (catalog : Catalog) (field : String) : List Column :=
  (fieldColumns catalog field).filter fun c => !c.isBelow catalog.queryDepth

def rowSelect (catalog : Catalog) (index : Nat) (s : Select) (field : String) (c : Column) :
    HitSelect :=
  { name := s.name, put := { name := s.name, index, child := leafName catalog field c },
    pull := pullColumn catalog.queryDepth c }

/-- How a select of a field reads the columns that nested documents below the rows hold. -/
def innerSelects (catalog : Catalog) (index : Nat) (s : Select) (field : String) :
    List HitSelect :=
  let columns := (fieldColumns catalog field).filter fun c => c.isBelow catalog.queryDepth
  (documentColumns columns).map fun (path, columns) => wholeSelect index s (.documents path columns)

theorem fieldSelects_eq (field : String) : fieldSelects catalog index s field
    = if (fieldColumns catalog field).isEmpty then [wholeSelect index s .nothing]
      else (rowColumns catalog field).map (rowSelect catalog index s field)
        ++ innerSelects catalog index s field := rfl

theorem mem_leaves_of_mem_rowColumns {c : Column} (h : c ∈ rowColumns catalog field) :
    c ∈ catalog.leaves field :=
  List.mem_of_mem_filter (List.mem_of_mem_filter h)

/-! ## References with the same leaves -/

section SameLeaves

variable {field' : String}

theorem fieldColumns_congr (h : catalog.leaves field = catalog.leaves field') :
    fieldColumns catalog field = fieldColumns catalog field' := by
  rw [fieldColumns, h, ← fieldColumns]

theorem rowColumns_congr (h : catalog.leaves field = catalog.leaves field') :
    rowColumns catalog field = rowColumns catalog field' := by
  rw [rowColumns, fieldColumns_congr h, ← rowColumns]

/-- Whole documents go to the column itself: seen without its name, they are the same. -/
theorem map_innerSelects {α : Type} (f : HitSelect → α)
    (hf : ∀ pull, f (wholeSelect index s pull) = f (wholeSelect index s' pull))
    (h : catalog.leaves field = catalog.leaves field') :
    (innerSelects catalog index s field).map f = (innerSelects catalog index s' field').map f := by
  rw [innerSelects, innerSelects, fieldColumns_congr h, List.map_map, List.map_map]
  apply List.map_congr_left
  intro group _
  exact hf _

/-- **References with the same leaves come out alike** exactly when every column of the rows has the
same name below both. -/
theorem unnamed_fieldSelects_iff (h : catalog.leaves field = catalog.leaves field') :
    (fieldSelects catalog index s field).map HitSelect.unnamed
        = (fieldSelects catalog index s' field').map HitSelect.unnamed
      ↔ ∀ c ∈ rowColumns catalog field, leafName catalog field c = leafName catalog field' c := by
  rw [fieldSelects_eq, fieldSelects_eq, fieldColumns_congr h, rowColumns_congr h]
  by_cases hnone : (fieldColumns catalog field').isEmpty = true
  · have hrows : rowColumns catalog field' = [] := by
      rw [rowColumns, List.isEmpty_iff.mp hnone, List.filter_nil]
    rw [if_pos hnone, if_pos hnone, hrows]
    exact iff_of_true rfl (by simp)
  · have hwhole (pull : HitPull) :
        (wholeSelect index s pull).unnamed = (wholeSelect index s' pull).unnamed := rfl
    rw [if_neg hnone, if_neg hnone, List.map_append, List.map_append, map_innerSelects _ hwhole h,
      List.append_left_inj, List.map_map, List.map_map, List.map_inj_left]
    apply forall₂_congr
    intro c _
    simp [HitSelect.unnamed, rowSelect]

/-- References with the same leaves read the same. -/
theorem read_fieldSelects (h : catalog.leaves field = catalog.leaves field') :
    (fieldSelects catalog index s field).map HitSelect.read
      = (fieldSelects catalog index s' field').map HitSelect.read := by
  rw [fieldSelects_eq, fieldSelects_eq, fieldColumns_congr h, rowColumns_congr h]
  by_cases hnone : (fieldColumns catalog field').isEmpty = true
  · rw [if_pos hnone, if_pos hnone]
    rfl
  · have hwhole (pull : HitPull) :
        (wholeSelect index s pull).read = (wholeSelect index s' pull).read := rfl
    rw [if_neg hnone, if_neg hnone, List.map_append, List.map_append, map_innerSelects _ hwhole h,
      List.map_map, List.map_map]
    rfl

end SameLeaves

/-! ## Names from the documents and from the root -/

/-- **The name of a leaf is the same below both spellings** only when the field is all of the
documents, and the leaf is not below another field that is called as they are. -/
theorem leafName_join_iff (hdeep : catalog.queryDepth ≠ Path.root) (hw : Path.WellFormed field)
    (hleaves : catalog.leaves field = catalog.leaves (Path.join catalog.queryDepth field))
    {c : Column} (hc : c ∈ catalog.leaves field) :
    leafName catalog field c = leafName catalog (Path.join catalog.queryDepth field) c
      ↔ field = Path.root
        ∧ Path.contains catalog.queryDepth (Path.relative c.name catalog.queryDepth) = false := by
  unfold leafName
  by_cases hfield : field = Path.root
  · have hjoin : Path.join catalog.queryDepth Path.root = catalog.queryDepth := by
      rw [Path.join, if_neg hdeep, if_pos rfl]
    have hrelative (path : String) : Path.relative path Path.root = path := if_pos rfl
    rw [hfield, hjoin, hrelative, eq_comm, Path.relative_eq_self_iff hdeep]
    simp
  · have hjoinRoot := Path.join_ne_root hdeep hfield hw.ne_empty
    have hjoinEmpty := Path.join_ne_empty hdeep hfield
    simp only [hfield, false_and, iff_false]
    apply Path.relative_ne_relative_join hdeep hfield hw
    rcases (Catalog.mem_leaves hfield).mp hc with hinner | ⟨hnone, -⟩
    · obtain ⟨-, -, hcontains⟩ := Catalog.mem_under.mp hinner
      exact Or.inl (Path.contains_relative hdeep hfield hw.ne_empty hcontains)
    · -- with nothing at the joined path, both spellings lead to a field that repeats its start
      rw [hleaves] at hc
      rcases (Catalog.mem_leaves hjoinRoot).mp hc with hinner | ⟨-, hcol⟩
      · obtain ⟨-, -, hcontains⟩ := Catalog.mem_under.mp hinner
        exact Or.inr (Path.contains_relative hdeep hjoinRoot hjoinEmpty hcontains)
      · rw [hnone] at hcol
        cases hcol

/-! ## A select exchanged for another -/

def ownSelects (catalog : Catalog) (index : Nat) (s : Select) (field : String) : List HitSelect :=
  if field = "_id" then [wholeSelect index s .id] else fieldSelects catalog index s field

theorem planSelect_var (h : s.value = .var field) :
    planSelect catalog index s = .ok (ownSelects catalog index s field, none) := by
  unfold planSelect ownSelects
  rw [h]
  by_cases hid : field = "_id"
  · subst hid
    rfl
  · rw [if_neg hid]
    simp only

/-- Selects that differ in one place are planned alike everywhere else. -/
theorem planSelects_exchange {before after : List Select} {own own' : List HitSelect}
    (h : planSelect catalog (index + before.length) s = .ok (own, none))
    (h' : planSelect catalog (index + before.length) s' = .ok (own', none)) :
    (∃ e, planSelects catalog index (before ++ s :: after) = .error e
        ∧ planSelects catalog index (before ++ s' :: after) = .error e)
      ∨ ∃ front back scripts,
        planSelects catalog index (before ++ s :: after) = .ok (front ++ own ++ back, scripts)
        ∧ planSelects catalog index (before ++ s' :: after)
          = .ok (front ++ own' ++ back, scripts) := by
  -- on the selects in front, which are planned alike
  induction before generalizing index with
  | nil =>
      simp only [List.nil_append, planSelects]
      rw [List.length_nil, Nat.add_zero] at h h'
      rw [h, h']
      cases planSelects catalog (index + 1) after with
      | error e => exact Or.inl ⟨e, rfl, rfl⟩
      | ok back => exact Or.inr ⟨[], back.1, back.2, rfl, rfl⟩
  | cons first before ih =>
      simp only [List.cons_append, planSelects]
      rw [List.length_cons, Nat.add_comm before.length 1, ← Nat.add_assoc] at h h'
      cases planSelect catalog index first with
      | error e => exact Or.inl ⟨e, rfl, rfl⟩
      | ok planned =>
          rcases ih h h' with ⟨e, he, he'⟩ | ⟨front, back, scripts, hok, hok'⟩
          · rw [he, he']
            exact Or.inl ⟨e, rfl, rfl⟩
          · rw [hok, hok']
            right
            simp only [Results.ok_bind]
            refine ⟨planned.1 ++ front, back,
              (planned.2.map fun source => (first.name, source)).toList ++ scripts, ?_, ?_⟩
            · simp only [List.append_assoc]
            · simp only [List.append_assoc]

/-- What a plan has besides its selects: the conditions and the sort. -/
def remainder (catalog : Catalog) (q : Query) :
    QueryResult (List (String × Filter) × List SortClause) := do
  let parts ← Grouping.split catalog q.condition
  let conditions ← parts.mapM fun (path, e) => do
    .ok (path, ← e.filter catalog)
  .ok (conditions, ← sortClauses catalog q.sort)

/-- The plan of a query whose selects are planned is made of these and of the remainder. -/
theorem compile_of_planned {selects : List Select} {planned : List HitSelect}
    {scripts : List (String × Script)} (q : Query)
    (h : planSelects catalog 0 selects = .ok (planned, scripts)) :
    compile catalog options { q with selects } = (remainder catalog q).map fun rest =>
      { queryDepth := catalog.queryDepth
        limit := options.limit q.limit
        fetched := fetchedBy (planned.map (·.pull)) scripts
        conditions := rest.1
        sort := rest.2
        selects := planned } := by
  unfold compile remainder
  rw [h]
  simp only [Results.ok_bind]
  cases Grouping.split catalog q.condition with
  | error e => rfl
  | ok parts =>
      simp only [Results.ok_bind]
      cases parts.mapM fun part => do
          Except.ok (part.1, ← part.2.filter catalog) with
      | error e => rfl
      | ok conditions =>
          cases sortClauses catalog q.sort with
          | error e => rfl
          | ok sort => rfl

/-- **Queries that differ in one select** compile to plans that differ in what it reads, or fail for
the same reason. -/
theorem compile_exchange {before after : List Select} {own own' : List HitSelect} (q : Query)
    (h : planSelect catalog before.length s = .ok (own, none))
    (h' : planSelect catalog before.length s' = .ok (own', none)) :
    (∃ e, compile catalog options { q with selects := before ++ s :: after } = .error e
        ∧ compile catalog options { q with selects := before ++ s' :: after } = .error e)
      ∨ ∃ p p' front back,
        compile catalog options { q with selects := before ++ s :: after } = .ok p
        ∧ compile catalog options { q with selects := before ++ s' :: after } = .ok p'
        ∧ p.selects = front ++ own ++ back ∧ p'.selects = front ++ own' ++ back := by
  rw [← Nat.zero_add before.length] at h h'
  -- selects are planned first, and the rest does not depend on them
  rcases planSelects_exchange h h' with ⟨e, he, he'⟩ | ⟨front, back, scripts, hok, hok'⟩
  · left
    refine ⟨e, ?_, ?_⟩
    · unfold compile
      rw [he]
      rfl
    · unfold compile
      rw [he']
      rfl
  · rw [compile_of_planned q hok, compile_of_planned q hok']
    cases remainder catalog q with
    | error e => exact Or.inl ⟨e, rfl, rfl⟩
    | ok rest => exact Or.inr ⟨_, _, front, back, rfl, rfl, rfl, rfl⟩

/-! ## The two spellings -/

/-- What is read by the id is read by no column. -/
theorem unnamed_id_ne (field : String) :
    [(wholeSelect index s' .id).unnamed]
      ≠ (fieldSelects catalog index s field).map HitSelect.unnamed := by
  intro heq
  have hmem : (wholeSelect index s' .id).unnamed
      ∈ (fieldSelects catalog index s field).map HitSelect.unnamed :=
    heq ▸ List.mem_singleton_self _
  obtain ⟨t, ht, hunnamed⟩ := List.mem_map.mp hmem
  have hpull : t.pull = .id := congrArg (fun parts => parts.2.2) hunnamed
  obtain ⟨-, hnothing | ⟨c, hcolumn⟩ | ⟨path, columns, hdocuments, -⟩⟩ := mem_fieldSelects ht
  · rw [hnothing] at hpull
    cases hpull
  · rw [hcolumn] at hpull
    cases hpull
  · rw [hdocuments] at hpull
    cases hpull

/-- **A field named from the root** is read as when it is named from the documents of the query: the
one query compiles when the other one does, and the same is read into the same columns of the rows.
It goes to the same places below these columns exactly when the rows hold no column of the field,
or when it is all of the documents and nothing in them is called as they are. -/
theorem spellings_alike_iff {before after : List Select} (q : Query)
    (hdeep : catalog.queryDepth ≠ Path.root) (hw : Path.WellFormed field) (hid : field ≠ "_id")
    (hleaves : catalog.leaves field = catalog.leaves (Path.join catalog.queryDepth field))
    (hs : s.value = .var field) (hs' : s'.value = .var (Path.join catalog.queryDepth field)) :
    (∃ e, compile catalog options { q with selects := before ++ s :: after } = .error e
        ∧ compile catalog options { q with selects := before ++ s' :: after } = .error e)
      ∨ ∃ p p', compile catalog options { q with selects := before ++ s :: after } = .ok p
        ∧ compile catalog options { q with selects := before ++ s' :: after } = .ok p'
        ∧ (Path.join catalog.queryDepth field ≠ "_id" →
          p.selects.map HitSelect.read = p'.selects.map HitSelect.read)
        ∧ (p.selects.map HitSelect.unnamed = p'.selects.map HitSelect.unnamed
          ↔ Path.join catalog.queryDepth field ≠ "_id"
            ∧ ∀ c ∈ rowColumns catalog field, field = Path.root
              ∧ Path.contains catalog.queryDepth (Path.relative c.name catalog.queryDepth)
                = false) := by
  have hown : planSelect catalog before.length s
      = .ok (ownSelects catalog before.length s field, none) := planSelect_var hs
  have hown' : planSelect catalog before.length s'
      = .ok (ownSelects catalog before.length s' (Path.join catalog.queryDepth field), none) :=
    planSelect_var hs'
  -- the plans differ in what this one select reads
  rcases compile_exchange q hown hown'
    with herror | ⟨p, p', front, back, hp, hp', hselects, hselects'⟩
  · exact Or.inl herror
  · right
    refine ⟨p, p', hp, hp', ?_, ?_⟩
    · intro hjoin
      rw [hselects, hselects', ownSelects, ownSelects, if_neg hid, if_neg hjoin]
      simp only [List.map_append]
      rw [read_fieldSelects hleaves]
    · rw [hselects, hselects']
      simp only [List.map_append, List.append_left_inj, List.append_right_inj]
      rw [ownSelects, ownSelects, if_neg hid]
      by_cases hjoin : Path.join catalog.queryDepth field = "_id"
      · rw [if_pos hjoin]
        apply iff_of_false
        · exact fun heq => unnamed_id_ne field heq.symm
        · exact fun hsame => hsame.1 hjoin
      · rw [if_neg hjoin, unnamed_fieldSelects_iff hleaves, and_iff_right hjoin]
        apply forall₂_congr
        intro c hc
        exact leafName_join_iff hdeep hw hleaves (mem_leaves_of_mem_rowColumns hc)

/-! ## Documents with values -/

/-- Nested documents with a number each, and with documents of their own that have one. -/
def stepsCatalog : Catalog where
  table := "t"
  columns :=
    [{ name := "c", stored := "c", mapping := "nested", type := .nested, nestedPath := ["c", "."] },
      { name := "c.v", stored := "c.v", mapping := "double", type := .number,
        nestedPath := ["c", "."] },
      { name := "c.w", stored := "c.w", mapping := "nested", type := .nested,
        nestedPath := ["c.w", "c", "."] },
      { name := "c.w.x", stored := "c.w.x", mapping := "double", type := .number,
        nestedPath := ["c.w", "c", "."] }]
  queryPath := ["c", "."]

def stepsSelect (field : String) : Select := plainSelect field (.var field)

def stepsQuery (field : String) : Query where
  table := "t.c"
  selects := [stepsSelect field]
  shape := .list
  edges := []
  groupby := []
  condition := .literal (.bool true)
  sort := []
  limit := none
  format := .list
  save := false
  written := none

def documentsPlan (name : String) : HitsPlan where
  queryDepth := "c"
  limit := 10
  fetched := { stored := [], inner := [], nested := [("c.w", ["c.w.x"])], scripts := [] }
  conditions := []
  sort := []
  selects :=
    [{ name, put := { name, index := 0, child := "." },
       pull := .documents "c.w" [("c.w.x", "x")] }]

def numberPlan (name child : String) : HitsPlan where
  queryDepth := "c"
  limit := 10
  fetched := { stored := [], inner := ["c.v"], nested := [], scripts := [] }
  conditions := []
  sort := []
  selects := [{ name, put := { name, index := 0, child }, pull := .column "c.v" true }]

theorem compile_documents : compile stepsCatalog .default (stepsQuery "w") = .ok (documentsPlan "w")
    ∧ compile stepsCatalog .default (stepsQuery "c.w") = .ok (documentsPlan "c.w") :=
  ⟨rfl, rfl⟩

theorem compile_number : compile stepsCatalog .default (stepsQuery "v") = .ok (numberPlan "v" ".")
    ∧ compile stepsCatalog .default (stepsQuery "c.v") = .ok (numberPlan "c.v" "v") :=
  ⟨rfl, rfl⟩

/-- The documents of a document are read alike from both names of their field. -/
theorem spellings_alike_documents :
    Path.WellFormed "w"
      ∧ stepsCatalog.leaves "w" = stepsCatalog.leaves "c.w"
      ∧ compile stepsCatalog .default (stepsQuery "w") = .ok (documentsPlan "w")
      ∧ compile stepsCatalog .default (stepsQuery "c.w") = .ok (documentsPlan "c.w")
      ∧ (documentsPlan "w").selects.map HitSelect.unnamed
        = (documentsPlan "c.w").selects.map HitSelect.unnamed := by
  have hw : Path.WellFormed "w" := Or.inr (by decide)
  have hleaves : stepsCatalog.leaves "w" = stepsCatalog.leaves "c.w" := by decide
  obtain ⟨hinner, hroot⟩ := compile_documents
  refine ⟨hw, hleaves, hinner, hroot, ?_⟩
  rcases @spellings_alike_iff stepsCatalog .default (stepsSelect "w") (stepsSelect "c.w") "w" [] []
      (stepsQuery "w") (by decide) hw (by decide) hleaves rfl rfl
    with ⟨e, he, -⟩ | ⟨p, p', hp, hp', -, halike⟩
  · cases hinner.symm.trans he
  · cases hinner.symm.trans hp
    cases hroot.symm.trans hp'
    exact halike.mpr (by decide)

/-- **A number is put below its column** when its field is named from the root, and into the column
itself when it is named from the documents. -/
theorem spellings_differ_number :
    Path.WellFormed "v"
      ∧ stepsCatalog.leaves "v" = stepsCatalog.leaves (Path.join stepsCatalog.queryDepth "v")
      ∧ compile stepsCatalog .default (stepsQuery "v") = .ok (numberPlan "v" ".")
      ∧ compile stepsCatalog .default (stepsQuery (Path.join stepsCatalog.queryDepth "v"))
        = .ok (numberPlan "c.v" "v")
      ∧ (numberPlan "v" ".").selects.map HitSelect.unnamed
        ≠ (numberPlan "c.v" "v").selects.map HitSelect.unnamed := by
  refine ⟨Or.inr (by decide), by decide, compile_number.1, ?_, by decide⟩
  have hjoin : Path.join stepsCatalog.queryDepth "v" = "c.v" := by decide
  rw [hjoin]
  exact compile_number.2

end Hits

end Tabula
