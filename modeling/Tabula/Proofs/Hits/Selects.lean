import Tabula.Hits.Plan
import Tabula.Proofs.Results
import Tabula.Proofs.Text.Sets

/-!
# The plan of a select

What a select reads is one of four things: the leaves below a path, the id of the document, the
columns of a field, or a value that a script computes (`Hits.planSelect_eq_ok`). All of it goes to
the column of the select (`Hits.mem_planSelects`). `Hits.compile_eq_ok` says what a plan is made of.
-/

set_option autoImplicit false

namespace Tabula.Hits

variable {catalog : Catalog} {index : Nat} {s : Select}

/-! ## Leaves -/

def leafColumns (catalog : Catalog) (path : String) : List Column :=
  (catalog.leaves path).filter fun c => isShown c && !c.isBelow catalog.queryDepth

def leafName (catalog : Catalog) (path : String) (c : Column) : String :=
  Path.relative (Path.relative c.name catalog.queryDepth) path

def leafSelect (catalog : Catalog) (index : Nat) (s : Select) (path : String) (c : Column) :
    HitSelect :=
  let place := Path.splitHead (Path.join s.name (leafName catalog path c))
  { name := place.1, put := { name := place.1, index, child := place.2 },
    pull := pullColumn catalog.queryDepth c }

theorem leafSelects_eq (path : String) : leafSelects catalog index s path
    = (leafColumns catalog path).map (leafSelect catalog index s path) := rfl

/-! ## Fields -/

def wholeSelect (index : Nat) (s : Select) (pull : HitPull) : HitSelect :=
  { name := s.name, put := { name := s.name, index, child := Path.root }, pull }

theorem documentColumns_ne_nil (columns : List Column) :
    ∀ group ∈ documentColumns columns, group.2 ≠ [] := by
  have hfold (groups : Text.Groups (String × String)) (h : ∀ group ∈ groups, group.2 ≠ []) :
      ∀ group ∈ columns.foldl (fun groups c => Text.addToGroup c.depth
        (c.stored, Path.relative c.name c.depth) groups) groups, group.2 ≠ [] := by
    induction columns generalizing groups with
    | nil => exact h
    | cons c columns ih =>
        refine ih _ (Text.forall_mem_addToGroup (P := (· ≠ [])) (by simp) ?_ h)
        exact fun group _ _ _ => by simp
  exact hfold [] (by simp)

/-- A field is read column by column, or document by document below the query path, or not at all
when no column stores it. -/
theorem mem_fieldSelects {field : String} {t : HitSelect}
    (h : t ∈ fieldSelects catalog index s field) :
    t.put.index = index ∧ (t.pull = .nothing ∨ (∃ c, t.pull = pullColumn catalog.queryDepth c)
      ∨ ∃ path columns, t.pull = .documents path columns ∧ columns ≠ []) := by
  unfold fieldSelects at h
  simp only at h
  split at h
  next =>
      rw [List.mem_singleton] at h
      exact h ▸ ⟨rfl, Or.inl rfl⟩
  next =>
      rcases List.mem_append.mp h with h | h
      · obtain ⟨c, -, rfl⟩ := List.mem_map.mp h
        exact ⟨rfl, Or.inr (Or.inl ⟨c, rfl⟩)⟩
      · obtain ⟨group, hgroup, rfl⟩ := List.mem_map.mp h
        exact ⟨rfl, Or.inr (Or.inr ⟨group.1, group.2, rfl, documentColumns_ne_nil _ group hgroup⟩)⟩

/-! ## Selects -/

/-- **What a select reads.** -/
theorem planSelect_eq_ok {planned : List HitSelect} {script : Option Script}
    (h : planSelect catalog index s = .ok (planned, script)) :
    (∃ path, s.value = .leaves path ∧ planned = leafSelects catalog index s path ∧ script = none)
      ∨ (planned = [wholeSelect index s .id] ∧ script = none)
      ∨ (∃ field, s.value = .var field ∧ planned = fieldSelects catalog index s field
        ∧ script = none)
      ∨ ∃ source, planned = [wholeSelect index s (.computed s.name)] ∧ script = some source := by
  unfold planSelect at h
  split at h
  next path hpath =>
      cases h
      exact Or.inl ⟨path, hpath, rfl, rfl⟩
  next =>
      cases h
      exact Or.inr (Or.inl ⟨rfl, rfl⟩)
  next field _ hfield =>
      cases h
      exact Or.inr (Or.inr (Or.inl ⟨field, hfield, rfl, rfl⟩))
  next =>
      obtain ⟨source, -, hs⟩ := Results.bind_eq_ok.mp h
      cases hs
      exact Or.inr (Or.inr (Or.inr ⟨source, rfl, rfl⟩))

theorem index_of_planSelect {planned : List HitSelect} {script : Option Script}
    (h : planSelect catalog index s = .ok (planned, script)) {t : HitSelect} (ht : t ∈ planned) :
    t.put.index = index := by
  rcases planSelect_eq_ok h with ⟨path, -, rfl, -⟩ | ⟨rfl, -⟩ | ⟨field, -, rfl, -⟩ | ⟨_, rfl, -⟩
  · obtain ⟨c, -, rfl⟩ := List.mem_map.mp ht
    rfl
  · rw [List.mem_singleton.mp ht]
    rfl
  · exact (mem_fieldSelects ht).1
  · rw [List.mem_singleton.mp ht]
    rfl

theorem mem_planSelects {selects : List Select} {planned : List HitSelect}
    {scripts : List (String × Script)}
    (h : planSelects catalog index selects = .ok (planned, scripts)) {t : HitSelect}
    (ht : t ∈ planned) : ∃ i s own script, selects[i]? = some s ∧ t.put.index = index + i
      ∧ planSelect catalog (index + i) s = .ok (own, script) ∧ t ∈ own := by
  induction selects generalizing index planned scripts with
  | nil =>
      cases h
      cases ht
  | cons s rest ih =>
      obtain ⟨⟨own, script⟩, hown, h⟩ := Results.bind_eq_ok.mp h
      obtain ⟨⟨more, others⟩, hmore, h⟩ := Results.bind_eq_ok.mp h
      cases h
      rcases List.mem_append.mp ht with ht | ht
      · exact ⟨0, s, own, script, rfl, index_of_planSelect hown ht, hown, ht⟩
      · obtain ⟨i, s', own', script', hs', hindex, hplan, ht'⟩ := ih hmore ht
        refine ⟨i + 1, s', own', script', hs', by omega, ?_, ht'⟩
        rwa [Nat.add_assoc, Nat.add_comm 1 i] at hplan

/-! ## Plans -/

/-- What a plan is made of. -/
theorem compile_eq_ok {options : Options} {q : Query} {p : HitsPlan}
    (h : compile catalog options q = .ok p) :
    ∃ scripts, planSelects catalog 0 q.selects = .ok (p.selects, scripts)
      ∧ p.queryDepth = catalog.queryDepth
      ∧ p.fetched = fetchedBy (p.selects.map (·.pull)) scripts
      ∧ ∀ c ∈ p.conditions, ∃ e : Expr, e.filter catalog = .ok c.2 := by
  obtain ⟨⟨selects, scripts⟩, hselects, h⟩ := Results.bind_eq_ok.mp h
  obtain ⟨parts, -, h⟩ := Results.bind_eq_ok.mp h
  obtain ⟨conditions, hconditions, h⟩ := Results.bind_eq_ok.mp h
  obtain ⟨sort, -, h⟩ := Results.bind_eq_ok.mp h
  cases h
  refine ⟨scripts, hselects, rfl, rfl, Results.forall_mem_of_mapM hconditions ?_⟩
  intro part _ c hc
  obtain ⟨f, hf, hc⟩ := Results.bind_eq_ok.mp hc
  cases hc
  exact ⟨part.2, hf⟩

end Tabula.Hits
