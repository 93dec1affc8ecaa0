import Tabula.Edge.Decoder
import Tabula.Metrics.Plan
import Tabula.Proofs.Grouping.Splitting
import Tabula.Proofs.Schema.Documents

/-!
# Where a reference leads

A reference is looked up twice: for the columns of exactly the field that it means, and for the
leaves at or below that field, which say in which nested documents it is read. Both try the
documents of the query first and then the root, and each stops at the first name where it finds
something (`Catalog.mem_firstHit_candidates`). They part when a field of the query's documents has
leaves below it but no columns of its own, and the field of the same name at the root has some
(`Catalog.Shadowed`). Everywhere else the columns are among the leaves, and live where an edge, a
condition or a formula over them is put (`Catalog.resolves_iff`).
-/

set_option autoImplicit false

namespace Tabula

namespace Catalog

/-! ## Lookups -/

/-- The leaf columns of exactly the field of a name from the root. -/
def exactly (c : Catalog) (field : String) : List Column :=
  c.columns.filter fun col => col.name == field && col.type.isLeaf

/-- The leaf columns at or below the field of a name from the root. -/
def under (c : Catalog) (field : String) : List Column :=
  c.columns.filter fun col => col.type.isLeaf && Path.contains field col.name

variable {c : Catalog} {name field : String} {col : Column}

theorem mem_exactly : col ∈ c.exactly field
    ↔ col ∈ c.columns ∧ col.name = field ∧ col.type.isLeaf = true := by
  simp [exactly]

theorem mem_under : col ∈ c.under field
    ↔ col ∈ c.columns ∧ col.type.isLeaf = true ∧ Path.contains field col.name = true := by
  simp [under]

theorem mem_under_of_mem_exactly (h : col ∈ c.exactly field) : col ∈ c.under field := by
  obtain ⟨hmem, rfl, hleaf⟩ := mem_exactly.mp h
  exact mem_under.mpr ⟨hmem, hleaf, by simp [Path.contains]⟩

/-- **The root is asked when the query's documents have no answer.** -/
theorem mem_firstHit_candidates (f : String → List Column) (hname : name ≠ Path.root) :
    col ∈ firstHit f (c.candidates name)
      ↔ col ∈ f (Path.join c.queryDepth name)
        ∨ f (Path.join c.queryDepth name) = [] ∧ col ∈ f name := by
  by_cases hdepth : c.queryDepth = Path.root
  · have hjoin : Path.join c.queryDepth name = name := by simp [Path.join, hdepth]
    rw [candidates, if_pos (by simp [hdepth]), firstHit_singleton, hjoin]
    constructor
    · exact Or.inl
    · rintro (hcol | ⟨-, hcol⟩)
      · exact hcol
      · exact hcol
  · rw [candidates, if_neg (by simp [hdepth, hname]), firstHit]
    cases f (Path.join c.queryDepth name) with
    | nil => simp [firstHit_singleton]
    | cons found more => simp

theorem scalars_eq_firstHit (c : Catalog) (name : String) :
    c.scalars name = firstHit c.exactly (c.candidates name) := by
  unfold scalars values
  rw [contains_containers]
  simp only [Bool.not_not]
  rfl

theorem mem_scalars (hname : name ≠ Path.root) : col ∈ c.scalars name
    ↔ col ∈ c.exactly (Path.join c.queryDepth name)
      ∨ c.exactly (Path.join c.queryDepth name) = [] ∧ col ∈ c.exactly name := by
  rw [scalars_eq_firstHit]
  exact mem_firstHit_candidates c.exactly hname

theorem mem_leaves (hname : name ≠ Path.root) : col ∈ c.leaves name
    ↔ col ∈ c.under (Path.join c.queryDepth name)
      ∨ c.under (Path.join c.queryDepth name) = [] ∧ col ∈ c.under name :=
  mem_firstHit_candidates c.under hname

/-! ## Shadowed fields -/

/-- Whether a field of the query's documents hides one of the root: it has leaves but no columns of
its own, and the field of the root, which is none of these leaves, has some. -/
def Shadowed (c : Catalog) (name : String) : Prop :=
  let inner := Path.join c.queryDepth name
  name ≠ Path.root ∧ Path.contains inner name = false
    ∧ c.exactly inner = [] ∧ c.under inner ≠ [] ∧ c.exactly name ≠ []

instance (c : Catalog) (name : String) : Decidable (c.Shadowed name) :=
  inferInstanceAs (Decidable (_ ∧ _))

/-- **The columns of a field that is not hidden are among its leaves.** -/
theorem mem_leaves_of_mem_scalars (h : ¬ c.Shadowed name) (hcol : col ∈ c.scalars name) :
    col ∈ c.leaves name := by
  by_cases hname : name = Path.root
  · rw [scalars_eq_firstHit, candidates, if_pos (by simp [hname]), firstHit_singleton] at hcol
    rw [leaves, candidates, if_pos (by simp [hname]), firstHit_singleton]
    exact mem_under_of_mem_exactly hcol
  · rw [mem_leaves hname]
    rcases (mem_scalars hname).mp hcol with hcol | ⟨hexactly, hcol⟩
    · exact Or.inl (mem_under_of_mem_exactly hcol)
    · by_cases hunder : c.under (Path.join c.queryDepth name) = []
      · exact Or.inr ⟨hunder, mem_under_of_mem_exactly hcol⟩
      · -- the inner field has leaves, and hides the column unless it is one of them
        left
        obtain ⟨hmem, hcolname, hleaf⟩ := mem_exactly.mp hcol
        refine mem_under.mpr ⟨hmem, hleaf, ?_⟩
        by_contra houtside
        rw [hcolname] at houtside
        apply h
        exact ⟨hname, eq_false_of_ne_true houtside, hexactly, hunder, List.ne_nil_of_mem hcol⟩

/-- Of a field that is hidden there are columns, and none of them is among the leaves. -/
theorem Shadowed.parts (h : c.Shadowed name) :
    c.scalars name ≠ [] ∧ ∀ col ∈ c.scalars name, col ∉ c.leaves name := by
  obtain ⟨hname, houtside, hexactly, hunder, hfound⟩ := h
  have hscalars (col : Column) : col ∈ c.scalars name ↔ col ∈ c.exactly name := by
    simp [mem_scalars hname, hexactly]
  constructor
  · obtain ⟨col, hcol⟩ := List.exists_mem_of_ne_nil _ hfound
    exact List.ne_nil_of_mem ((hscalars col).mpr hcol)
  · intro col hcol hleaf
    obtain ⟨-, hcolname, -⟩ := mem_exactly.mp ((hscalars col).mp hcol)
    rcases (mem_leaves hname).mp hleaf with hinner | ⟨hnone, -⟩
    · obtain ⟨-, -, hcontains⟩ := mem_under.mp hinner
      rw [hcolname, houtside] at hcontains
      cases hcontains
    · exact hunder hnone

/-! ## Depths -/

/-- Whether all columns of some references live in the nested documents at a path, but for those of
hidden fields. -/
def ReadsAt (c : Catalog) (names : List String) (depth : String) : Prop :=
  ∀ name ∈ names, ¬ c.Shadowed name → ∀ col ∈ c.scalars name, col.depth = depth

/-- The columns of references live where their leaves do. -/
theorem readsAt_of_depthsOf {names : List String} {depth : String}
    (h : c.depthsOf names = [] ∨ c.depthsOf names = [depth]) : c.ReadsAt names depth := by
  intro name hname hshown col hcol
  have hmem : col.depth ∈ c.depthsOf names := by
    apply Text.mem_setOf.mpr
    apply List.mem_map_of_mem
    exact List.mem_flatMap.mpr ⟨name, hname, mem_leaves_of_mem_scalars hshown hcol⟩
  rcases h with hnone | hone
  · rw [hnone] at hmem
    cases hmem
  · rw [hone] at hmem
    exact List.mem_singleton.mp hmem

theorem depthsOf_of_edge {e : Edge} {depth : String} (h : e.depth c = .ok depth) :
    c.depthsOf e.vars = [] ∨ c.depthsOf e.vars = [depth] := by
  unfold Edge.depth at h
  simp only at h
  split at h
  next => cases h
  next =>
      split at h
      next hnone => exact Or.inl hnone
      next only hone =>
          cases h
          exact Or.inr hone
      next => cases h

theorem depthsOf_of_conjunct {e : Expr} {depth : String}
    (h : Grouping.conjunctDepth c e = .ok depth) :
    c.depthsOf e.vars = [] ∨ c.depthsOf e.vars = [depth] := by
  unfold Grouping.conjunctDepth at h
  split at h
  next hnone => exact Or.inl hnone
  next only hone =>
      cases h
      exact Or.inr hone
  next => cases h

theorem formulaDepth_eq (c : Catalog) (e : Expr) :
    MetricPlan.formulaDepth c e = Grouping.conjunctDepth c e := rfl

/-- **A reference leads to one place** exactly when no field hides the one that it means: then the
columns of the field are among its leaves, and where an edge, a conjunct of a condition or a formula
is put, there live all columns of the fields that it refers to. -/
theorem resolves_iff (c : Catalog) :
    (∀ name, (∀ col ∈ c.scalars name, col ∈ c.leaves name) ↔ ¬ c.Shadowed name)
      ∧ (∀ (e : Edge) depth, e.depth c = .ok depth → c.ReadsAt e.vars depth)
      ∧ (∀ (e : Expr) depth, Grouping.conjunctDepth c e = .ok depth → c.ReadsAt e.vars depth)
      ∧ ∀ (e : Expr) depth, MetricPlan.formulaDepth c e = .ok depth → c.ReadsAt e.vars depth := by
  refine ⟨?_, ?_, ?_, ?_⟩
  · intro name
    constructor
    · intro hall hshadowed
      obtain ⟨hfound, hnone⟩ := hshadowed.parts
      obtain ⟨col, hcol⟩ := List.exists_mem_of_ne_nil _ hfound
      exact hnone col hcol (hall col hcol)
    · intro hshown col hcol
      exact mem_leaves_of_mem_scalars hshown hcol
  · intro e depth hdepth
    exact readsAt_of_depthsOf (depthsOf_of_edge hdepth)
  · intro e depth hdepth
    exact readsAt_of_depthsOf (depthsOf_of_conjunct hdepth)
  · intro e depth hdepth
    rw [formulaDepth_eq] at hdepth
    exact readsAt_of_depthsOf (depthsOf_of_conjunct hdepth)

/-! ## A field that is hidden -/

def hiddenColumn : Column :=
  { name := "x", stored := "x", mapping := "double", type := .number, nestedPath := ["."] }

/-- Nested documents with a number and with an object of the name of the one at the root. -/
def hiddenCatalog : Catalog where
  table := "t"
  columns :=
    [{ name := "c", stored := "c", mapping := "nested", type := .nested, nestedPath := ["c", "."] },
      { name := "c.v", stored := "c.v", mapping := "double", type := .number,
        nestedPath := ["c", "."] },
      { name := "c.x", stored := "c.x", mapping := "object", type := .object,
        nestedPath := ["c", "."] },
      { name := "c.x.y", stored := "c.x.y", mapping := "double", type := .number,
        nestedPath := ["c", "."] },
      hiddenColumn]
  queryPath := ["c", "."]

/-- The number in the documents is not hidden, and an edge over it is put where it lives. -/
theorem resolves_iff_inside :
    (∀ col ∈ hiddenCatalog.scalars "v", col ∈ hiddenCatalog.leaves "v")
      ∧ (Edge.ofField "v").depth hiddenCatalog = .ok "c"
      ∧ ∀ col ∈ hiddenCatalog.scalars "v", col.depth = "c" := by
  obtain ⟨hresolves, hedge, -, -⟩ := resolves_iff hiddenCatalog
  have hshown : ¬ hiddenCatalog.Shadowed "v" := by decide
  have hdepth : (Edge.ofField "v").depth hiddenCatalog = .ok "c" := by cbv
  exact ⟨(hresolves "v").mpr hshown, hdepth, hedge _ _ hdepth "v" (by decide) hshown⟩

def hiddenEdge : Edge := { Edge.ofField "x" with domain := .range 0 10 5 }

/-- **A hidden field is read in the wrong documents.** The ranges are asked of the column at the
root, but inside the nested documents, where the leaf of the object lives. -/
theorem not_resolves_hidden :
    hiddenCatalog.scalars "x" = [hiddenColumn]
      ∧ hiddenColumn ∉ hiddenCatalog.leaves "x"
      ∧ valueSource hiddenCatalog (.var "x") = .ok (.column hiddenColumn.stored)
      ∧ hiddenEdge.depth hiddenCatalog = .ok "c"
      ∧ hiddenColumn.depth = Path.root := by
  refine ⟨by decide, by decide, ?_, ?_, rfl⟩
  · cbv
  · cbv

end Catalog

end Tabula
