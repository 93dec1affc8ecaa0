import Tabula.Proofs.Grouping.Starts
import Tabula.Proofs.Results
import Tabula.Proofs.Text.Sets

/-!
# The layers of a tree

A compiled tree is its metrics with layers around them: steps between nested documents,
conditions, and edges. `Assembly.layers` lists them from the outside in, and `tree_eq_stacked`
says that building the tree from the inside out wraps exactly these. The edges among them are the
decoders in their order (`edges_layers`), and every condition that may fail is one of them
(`conditionsAt_layers`).
-/

set_option autoImplicit false

namespace Tabula.Grouping

/-! ## Layers -/

/-- What is wrapped around a tree at once. -/
inductive Layer where
  /-- The step from a scope to the scope of the tree. -/
  | step (outer inner : String)
  /-- The condition on a path. -/
  | condition (path : String) (filter : Filter)
  | edge (decoder : Decoder)

def Layer.around (inner : Aggs) : Layer → Aggs
  | step outer scope => inner.wrap "_nested" (Aggs.step outer scope)
  | condition _ filter => inner.wrap "_filter" (.filter filter)
  | edge d => d.encode inner

def stacked (inner : Aggs) (layers : List Layer) : Aggs :=
  layers.foldr (fun layer tree => layer.around tree) inner

def edges (layers : List Layer) : List Decoder :=
  layers.filterMap fun
    | .edge d => some d
    | _ => none

def conditionsAt (path : String) (layers : List Layer) : List Filter :=
  layers.filterMap fun
    | .condition p filter => if p = path then some filter else none
    | _ => none

@[simp] theorem edges_edge (d : Decoder) (layers : List Layer) :
    edges (.edge d :: layers) = d :: edges layers := rfl

theorem stacked_append (inner : Aggs) (outer layers : List Layer) :
    stacked inner (outer ++ layers) = stacked (stacked inner layers) outer :=
  List.foldr_append

theorem edges_append (outer layers : List Layer) :
    edges (outer ++ layers) = edges outer ++ edges layers :=
  List.filterMap_append

theorem conditionsAt_append (path : String) (outer layers : List Layer) :
    conditionsAt path (outer ++ layers) = conditionsAt path outer ++ conditionsAt path layers :=
  List.filterMap_append

/-- The step from a scope to another, if they differ. -/
def stepLayers (outer scope : String) : List Layer :=
  if scope = outer then [] else [.step outer scope]

theorem rescope_eq (scope outer : String) (tree : Aggs) :
    tree.rescope scope outer = stacked tree (stepLayers outer scope) := by
  unfold Aggs.rescope stepLayers
  split
  next => rfl
  next => rfl

theorem edges_stepLayers (outer scope : String) : edges (stepLayers outer scope) = [] := by
  unfold stepLayers
  split
  next => rfl
  next => rfl

theorem conditionsAt_stepLayers (path outer scope : String) :
    conditionsAt path (stepLayers outer scope) = [] := by
  unfold stepLayers
  split
  next => rfl
  next => rfl

namespace Assembly

variable (catalog : Catalog) (a : Assembly)

/-! ## The layers of an assembly -/

def filterAt (path : String) : QueryResult (Option Filter) :=
  match a.conditions.find? (·.1 == path) with
  | none => .ok none
  | some (_, condition) =>
      if condition.fold.isTrue then .ok none
      else do .ok (some (← condition.fold.filter catalog))

def edgeLayers (path : String) : List Layer :=
  (a.decoders.filter (·.depth == path)).map .edge

/-- The layers that some paths, the deepest first, put around a tree in a scope. -/
def layersFrom : List String → String → QueryResult (List Layer)
  | [], scope => .ok (stepLayers Path.root scope)
  | path :: rest, scope => do
      let filter ← a.filterAt catalog path
      let outer ← layersFrom rest path
      .ok (outer ++ (filter.toList.map (.condition path) ++ a.edgeLayers path
        ++ stepLayers path scope))

def layers : QueryResult (List Layer) := a.layersFrom catalog a.paths a.queryDepth

variable {catalog a}

theorem wrapCondition_eq_ok {path : String} {tree out : Aggs}
    (h : a.wrapCondition catalog path tree = .ok out) :
    ∃ filter, a.filterAt catalog path = .ok filter
      ∧ out = stacked tree (filter.toList.map (.condition path)) := by
  unfold wrapCondition at h
  unfold filterAt
  cases hfind : a.conditions.find? (·.1 == path) with
  | none =>
      rw [hfind] at h
      cases h
      exact ⟨none, rfl, rfl⟩
  | some entry =>
      obtain ⟨p, condition⟩ := entry
      rw [hfind] at h
      simp only at h ⊢
      split at h
      next htrue =>
          cases h
          rw [if_pos htrue]
          exact ⟨none, rfl, rfl⟩
      next htrue =>
          obtain ⟨filter, hfilter, h⟩ := Results.bind_eq_ok.mp h
          cases h
          rw [if_neg htrue]
          refine ⟨some filter, ?_, rfl⟩
          rw [hfilter, Results.ok_bind]

theorem wrapEdges_eq (path : String) (tree : Aggs) :
    a.wrapEdges path tree = stacked tree (a.edgeLayers path) := by
  rw [wrapEdges, edgeLayers, stacked, List.foldr_map]
  rfl

theorem wrapPaths_eq_ok {paths : List String} {scope reached : String} {tree out : Aggs}
    (h : a.wrapPaths catalog paths scope tree = .ok (reached, out)) :
    ∃ layers, a.layersFrom catalog paths scope = .ok layers
      ∧ out.rescope reached Path.root = stacked tree layers := by
  -- the tree built so far is what the layers of the paths still to come are put around
  induction paths generalizing scope tree with
  | nil =>
      cases h
      exact ⟨_, rfl, rescope_eq _ _ _⟩
  | cons path paths ih =>
      obtain ⟨wrapped, hwrapped, h⟩ := Results.bind_eq_ok.mp h
      obtain ⟨filter, hfilter, hcond⟩ := wrapCondition_eq_ok hwrapped
      obtain ⟨outer, houter, heq⟩ := ih h
      refine ⟨outer ++ (filter.toList.map (.condition path) ++ a.edgeLayers path
        ++ stepLayers path scope), ?_, ?_⟩
      · rw [layersFrom, hfilter, Results.ok_bind, houter, Results.ok_bind]
      · rw [heq, hcond, wrapEdges_eq, rescope_eq]
        simp only [stacked_append]

/-- **The tree is its layers around the metrics.** -/
theorem tree_eq_stacked {tree : Aggs} (h : a.tree catalog = .ok tree) :
    ∃ layers, a.layers catalog = .ok layers ∧ tree = stacked a.metrics layers := by
  obtain ⟨⟨reached, out⟩, hwrap, h⟩ := Results.bind_eq_ok.mp h
  cases h
  exact wrapPaths_eq_ok hwrap

/-! ## The edges among the layers -/

theorem edges_edgeLayers (path : String) :
    edges (a.edgeLayers path) = a.decoders.filter (·.depth == path) := by
  rw [edges, edgeLayers, List.filterMap_map]
  exact List.filterMap_some

theorem edges_conditions (path : String) (filters : List Filter) :
    edges (filters.map (.condition path)) = [] := by
  rw [edges, List.filterMap_map]
  exact List.filterMap_eq_nil_iff.mpr fun _ _ => rfl

theorem edges_layersFrom {paths : List String} {scope : String} {layers : List Layer}
    (h : a.layersFrom catalog paths scope = .ok layers) :
    edges layers = paths.reverse.flatMap fun path => a.decoders.filter (·.depth == path) := by
  -- the first path is the innermost, so its edges come last
  induction paths generalizing scope layers with
  | nil =>
      cases h
      exact edges_stepLayers _ _
  | cons path paths ih =>
      obtain ⟨filter, -, h⟩ := Results.bind_eq_ok.mp h
      obtain ⟨outer, houter, h⟩ := Results.bind_eq_ok.mp h
      cases h
      rw [edges_append, edges_append, edges_append, ih houter, edges_conditions,
        edges_edgeLayers, edges_stepLayers, List.nil_append, List.append_nil, List.reverse_cons,
        List.flatMap_append, List.flatMap_singleton]

theorem nodup_paths : a.paths.Nodup :=
  (List.mergeSort_perm _ _).nodup_iff.mpr (Text.ascending_setOf _).nodup

theorem descending_paths :
    a.paths.reverse.Pairwise fun p q => Path.compareDepth p q = .lt := by
  have hsorted : a.paths.Pairwise fun p q => (Path.compareDepth q p).isLE :=
    Lists.pairwise_mergeSort_swap _
  rw [List.pairwise_reverse]
  -- sorting alone allows ties, but only of equal paths, and none is repeated
  refine (hsorted.and nodup_paths).imp ?_
  rintro p q ⟨hle, hne⟩
  cases hc : Path.compareDepth q p with
  | lt => rfl
  | eq => exact absurd (Std.LawfulEqCmp.eq_of_compare hc).symm hne
  | gt => simp [hc] at hle

theorem mem_paths {path : String} : path ∈ a.paths ↔
    path = a.queryDepth ∨ (∃ d ∈ a.decoders, d.depth = path)
      ∨ ∃ c ∈ a.conditions, c.1 = path := by
  rw [paths, List.mem_mergeSort, Text.mem_setOf]
  simp only [List.cons_append, List.mem_cons, List.mem_append, List.mem_map]

/-- **The edges of the tree are the decoders**, when these go from shallow to deep. -/
theorem edges_layers {layers : List Layer} (h : a.layers catalog = .ok layers)
    (hs : a.decoders.Pairwise fun d e => (Path.compareDepth d.depth e.depth).isLE) :
    edges layers = a.decoders := by
  rw [edges_layersFrom h]
  refine Lists.flatMap_filter_of_sorted descending_paths hs ?_
  intro d hd
  rw [List.mem_reverse, mem_paths]
  exact Or.inr (Or.inl ⟨d, hd, rfl⟩)

/-! ## The conditions among the layers -/

theorem conditionsAt_edgeLayers (path p : String) : conditionsAt path (a.edgeLayers p) = [] := by
  rw [conditionsAt, edgeLayers, List.filterMap_map]
  exact List.filterMap_eq_nil_iff.mpr fun _ _ => rfl

theorem conditionsAt_conditions (path : String) (filters : List Filter) :
    conditionsAt path (filters.map (.condition path)) = filters := by
  rw [conditionsAt, List.filterMap_map]
  refine Eq.trans (List.filterMap_congr fun f _ => ?_) List.filterMap_some
  exact if_pos rfl

theorem conditionsAt_conditions_of_ne {path p : String} (h : p ≠ path) (filters : List Filter) :
    conditionsAt path (filters.map (.condition p)) = [] := by
  rw [conditionsAt, List.filterMap_map]
  exact List.filterMap_eq_nil_iff.mpr fun _ _ => if_neg h

theorem conditionsAt_layersFrom_of_not_mem {path : String} {paths : List String}
    (hp : path ∉ paths) {scope : String} {layers : List Layer}
    (h : a.layersFrom catalog paths scope = .ok layers) : conditionsAt path layers = [] := by
  induction paths generalizing scope layers with
  | nil =>
      cases h
      exact conditionsAt_stepLayers _ _ _
  | cons p paths ih =>
      obtain ⟨filter, -, h⟩ := Results.bind_eq_ok.mp h
      obtain ⟨outer, houter, h⟩ := Results.bind_eq_ok.mp h
      cases h
      have hne : p ≠ path := fun heq => hp (by simp [heq])
      simp only [conditionsAt_append, ih (fun hmem => hp (by simp [hmem])) houter,
        conditionsAt_conditions_of_ne hne, conditionsAt_edgeLayers, conditionsAt_stepLayers,
        List.append_nil]

theorem conditionsAt_layersFrom {path : String} {paths : List String} (hn : paths.Nodup)
    (hp : path ∈ paths) {scope : String} {layers : List Layer}
    (h : a.layersFrom catalog paths scope = .ok layers) :
    ∃ filter, a.filterAt catalog path = .ok filter
      ∧ conditionsAt path layers = filter.toList := by
  induction paths generalizing scope layers with
  | nil => simp at hp
  | cons p paths ih =>
      obtain ⟨hp', hn⟩ := List.nodup_cons.mp hn
      obtain ⟨filter, hfilter, h⟩ := Results.bind_eq_ok.mp h
      obtain ⟨outer, houter, h⟩ := Results.bind_eq_ok.mp h
      cases h
      -- a path is visited once, so its condition is in one place
      by_cases heq : p = path
      · subst heq
        refine ⟨filter, hfilter, ?_⟩
        simp only [conditionsAt_append, conditionsAt_layersFrom_of_not_mem hp' houter,
          conditionsAt_conditions, conditionsAt_edgeLayers, conditionsAt_stepLayers,
          List.append_nil, List.nil_append]
      · have hmem : path ∈ paths := (List.mem_cons.mp hp).resolve_left (Ne.symm heq)
        obtain ⟨own, hown, houter⟩ := ih hn hmem houter
        refine ⟨own, hown, ?_⟩
        simp only [conditionsAt_append, houter, conditionsAt_conditions_of_ne heq,
          conditionsAt_edgeLayers, conditionsAt_stepLayers, List.append_nil]

/-- **Each condition is one filter among the layers**, unless it always holds. -/
theorem conditionsAt_layers {layers : List Layer} (h : a.layers catalog = .ok layers)
    (hn : (a.conditions.map (·.1)).Nodup) {path : String} {condition : Expr}
    (hc : (path, condition) ∈ a.conditions) :
    if condition.fold.isTrue then conditionsAt path layers = []
    else ∃ filter, condition.fold.filter catalog = .ok filter
      ∧ conditionsAt path layers = [filter] := by
  have hmem : path ∈ a.paths := mem_paths.mpr (Or.inr (Or.inr ⟨_, hc, rfl⟩))
  obtain ⟨filter, hfilter, hlayers⟩ := conditionsAt_layersFrom nodup_paths hmem h
  rw [filterAt, Lists.find?_key hn hc] at hfilter
  simp only at hfilter
  split
  next htrue =>
      rw [if_pos htrue] at hfilter
      cases hfilter
      exact hlayers
  next htrue =>
      rw [if_neg htrue] at hfilter
      obtain ⟨f, hf, hsome⟩ := Results.bind_eq_ok.mp hfilter
      cases hsome
      exact ⟨f, hf, hlayers⟩

/-- There is no filter on a path without a condition. -/
theorem conditionsAt_layers_of_not_mem {layers : List Layer} (h : a.layers catalog = .ok layers)
    {path : String} (hc : path ∉ a.conditions.map (·.1)) : conditionsAt path layers = [] := by
  by_cases hmem : path ∈ a.paths
  · obtain ⟨filter, hfilter, hlayers⟩ := conditionsAt_layersFrom nodup_paths hmem h
    have hfind : a.conditions.find? (·.1 == path) = none := by
      rw [List.find?_eq_none]
      intro c hmem heq
      exact hc (List.mem_map.mpr ⟨c, hmem, by simpa using heq⟩)
    rw [filterAt, hfind] at hfilter
    cases hfilter
    exact hlayers
  · exact conditionsAt_layersFrom_of_not_mem hmem h

end Assembly

end Tabula.Grouping
