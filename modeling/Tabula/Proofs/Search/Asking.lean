import Tabula.Expr.Filter
import Tabula.Proofs.Results

/-!
# Filters that ask for documents

A clause on nested documents can ask for those that satisfy it, and they come with each hit.
`Filter.required` lists such clauses of a filter that a document has to satisfy, and
`Filter.optional` those that it need not. As a request holds it, such a clause names the columns of
the documents (`Filter.asksFor_nested`). The condition of a query only tests: its filter asks for
nothing (`Expr.plain_filter`).
-/

set_option autoImplicit false

namespace Tabula

namespace Filter

/-! ## Clauses that ask for documents -/

mutual

/-- The clauses of a filter that ask for documents, each with whether it is optional. A clause that
is given as it stands could ask for any. -/
def asking (optional : Bool) : Filter → List (Bool × Filter)
  | all fs => askingAll optional fs
  | any fs => askingAll true fs
  | not f => asking true f
  | nested path f (some hits) => (optional, nested path f (some hits)) :: asking optional f
  | nested _ f none => asking optional f
  | trying f tried => asking optional f ++ askingAll true tried
  | verbatim body => [(optional, verbatim body)]
  | matchAll | term _ _ | terms _ _ | range _ _ _ | startsWith _ _ | present _ | script _ => []

def askingAll (optional : Bool) : List Filter → List (Bool × Filter)
  | [] => []
  | f :: rest => asking optional f ++ askingAll optional rest

end

/-- The clauses that ask for documents and have to be satisfied. -/
def required (f : Filter) : List Filter := ((asking false f).filter fun a => !a.1).map (·.2)

/-- The clauses that ask for documents and need not be satisfied. -/
def optional (f : Filter) : List Filter := ((asking false f).filter fun a => a.1).map (·.2)

theorem askingAll_eq (optional : Bool) (fs : List Filter) :
    askingAll optional fs = fs.flatMap (asking optional) := by
  induction fs with
  | nil => rfl
  | cons f fs ih => rw [askingAll, ih, List.flatMap_cons]

theorem asking_allOf (optional : Bool) (fs : List Filter) :
    asking optional (allOf fs) = fs.flatMap (asking optional) := by
  cases fs with
  | nil => rfl
  | cons f rest =>
      cases rest with
      | nil => rw [allOf, List.flatMap_cons, List.flatMap_nil, List.append_nil]
      | cons g rest => exact askingAll_eq optional (f :: g :: rest)

/-! ## Clauses as requests hold them -/

/-- Whether a filter asks for no documents. -/
def Plain (f : Filter) : Prop := ∀ optional, asking optional f = []

theorem plain_all {fs : List Filter} (h : ∀ f ∈ fs, f.Plain) : (all fs).Plain := by
  intro optional
  rw [asking, askingAll_eq, List.flatMap_eq_nil_iff]
  exact fun f hf => h f hf optional

theorem plain_allOf {fs : List Filter} (h : ∀ f ∈ fs, f.Plain) : (allOf fs).Plain := by
  intro optional
  rw [asking_allOf, List.flatMap_eq_nil_iff]
  exact fun f hf => h f hf optional

theorem plain_any {fs : List Filter} (h : ∀ f ∈ fs, f.Plain) : (any fs).Plain := by
  intro optional
  rw [asking, askingAll_eq, List.flatMap_eq_nil_iff]
  exact fun f hf => h f hf true

theorem plain_not {f : Filter} (h : f.Plain) : (not f).Plain := fun _ => h true

theorem plain_anyOf {fs : List Filter} (h : ∀ f ∈ fs, f.Plain) : (anyOf fs).Plain := by
  cases fs with
  | nil => exact fun _ => rfl
  | cons f rest =>
      cases rest with
      | nil => exact h f List.mem_cons_self
      | cons g rest => exact plain_any h

end Filter

/-! ## Conditions -/

namespace Expr

variable (catalog : Catalog)

theorem plain_presentFilter (name : String) : (presentFilter catalog name).Plain := by
  refine Filter.plain_anyOf fun f hf => ?_
  obtain ⟨c, -, rfl⟩ := List.mem_map.mp hf
  exact fun _ => rfl

theorem plain_compareFilter (op : CompareOp) (name : String) (value : Json) :
    (compareFilter catalog op name value).Plain := by
  unfold compareFilter
  split
  next =>
      cases op with
      | eq => exact Filter.plain_not (plain_presentFilter catalog name)
      | ne => exact plain_presentFilter catalog name
      | _ => exact fun _ => rfl
  next =>
      refine Filter.plain_anyOf fun f hf => ?_
      obtain ⟨c, -, rfl⟩ := List.mem_map.mp hf
      cases op <;> exact fun _ => rfl

theorem plain_startsWithFilter (name start : String) :
    (startsWithFilter catalog name start).Plain := by
  refine Filter.plain_anyOf fun f hf => ?_
  obtain ⟨c, -, rfl⟩ := List.mem_map.mp hf
  exact fun _ => rfl

theorem plain_oneOfFilter (name : String) (values : List Json) :
    (oneOfFilter catalog name values).Plain := by
  refine Filter.plain_anyOf fun f hf => ?_
  obtain ⟨c, -, hf⟩ := List.mem_filterMap.mp hf
  split at hf
  next => cases hf
  next =>
      cases hf
      exact fun _ => rfl

variable {catalog}

theorem plain_scriptFilter {e : Expr} {f : Filter} (h : scriptFilter catalog e = .ok f) :
    f.Plain := by
  obtain ⟨source, -, hf⟩ := Results.bind_eq_ok.mp h
  cases hf
  exact fun _ => rfl

/-- **The filter of a condition asks for no documents.** -/
theorem plain_filter (e : Expr) {f : Filter} (h : e.filter catalog = .ok f) : f.Plain := by
  -- the induction takes the conditions of a conjunction or disjunction along
  refine filter.induct (fun e => ∀ f, e.filter catalog = .ok f → f.Plain)
    (fun ts => ∀ fs, filters catalog ts = .ok fs → ∀ f ∈ fs, f.Plain)
    ?literal ?and ?or ?not ?present ?missing ?compare ?compareTo ?startsWith ?oneOf ?script ?nil
    ?cons e f h
  case literal =>
    intro v f h
    cases h
    split <;> exact fun _ => rfl
  case and =>
    intro ts ih f h
    obtain ⟨fs, hfs, hf⟩ := Results.bind_eq_ok.mp h
    cases hf
    exact Filter.plain_all (ih fs hfs)
  case or =>
    intro ts ih f h
    obtain ⟨fs, hfs, hf⟩ := Results.bind_eq_ok.mp h
    cases hf
    exact Filter.plain_anyOf (ih fs hfs)
  case not =>
    intro t ih f h
    obtain ⟨g, hg, hf⟩ := Results.bind_eq_ok.mp h
    cases hf
    exact Filter.plain_not (ih g hg)
  case present =>
    intro name f h
    cases h
    exact plain_presentFilter catalog name
  case missing =>
    intro name f h
    cases h
    exact Filter.plain_not (plain_presentFilter catalog name)
  case compare =>
    intro op name v f h
    cases h
    exact plain_compareFilter catalog op name v
  case compareTo =>
    intro op v name f h
    cases h
    exact plain_compareFilter catalog op.flip name v
  case startsWith =>
    intro name start f h
    cases h
    exact plain_startsWithFilter catalog name start
  case oneOf =>
    intro name values f h
    cases h
    exact plain_oneOfFilter catalog name values
  case script =>
    intro e _ _ _ _ _ _ _ _ _ _ f h
    rw [filter] at h
    · exact plain_scriptFilter h
    all_goals assumption
  case nil =>
    intro fs h
    cases h
    exact fun f hf => absurd hf List.not_mem_nil
  case cons =>
    intro t rest iht ihrest fs h
    obtain ⟨f, hf, h⟩ := Results.bind_eq_ok.mp h
    obtain ⟨more, hmore, h⟩ := Results.bind_eq_ok.mp h
    cases h
    exact List.forall_mem_cons.mpr ⟨iht f hf, ihrest more hmore⟩

end Expr

end Tabula
