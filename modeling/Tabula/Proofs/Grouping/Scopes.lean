import Mathlib
import Tabula.Proofs.Grouping.Pieces
import Tabula.Proofs.Metrics.Selects

/-!
# Scopes of a compiled tree

A tree is built from the inside out: from the query path to the deepest path and from there back
to the root. Read from the root, its layers lead to the query path (`Descends`): each step leaves
the scope that it stands in, and every edge and every condition stands at its own path. Between
comparable paths every such step is one that the backend takes (`legal_stacked`). Together with
the metrics, each of which is computed in the nested documents that its select means, this makes
a compiled tree `WellScoped`.
-/

set_option autoImplicit false

namespace Tabula.Grouping

/-! ## Layers and scopes -/

/-- Layers that lead from one scope to another, with each edge and each condition at its path. -/
inductive Descends : String → List Layer → String → Prop where
  | done {scope : String} : Descends scope [] scope
  | step {outer inner target : String} {layers : List Layer} :
      inner ≠ outer → Path.Comparable outer inner → Descends inner layers target →
        Descends outer (.step outer inner :: layers) target
  | condition {path target : String} {filter : Filter} {layers : List Layer} :
      Descends path layers target → Descends path (.condition path filter :: layers) target
  | edge {target : String} {d : Decoder} {layers : List Layer} :
      Descends d.depth layers target → Descends d.depth (.edge d :: layers) target

theorem Descends.append {scope middle target : String} {outer layers : List Layer}
    (h : Descends scope outer middle) (h' : Descends middle layers target) :
    Descends scope (outer ++ layers) target := by
  induction h with
  | done => exact h'
  | step hne hc _ ih => exact .step hne hc (ih h')
  | condition _ ih => exact .condition (ih h')
  | edge _ ih => exact .edge (ih h')

theorem descends_stepLayers {outer scope : String} (hc : Path.Comparable outer scope) :
    Descends outer (stepLayers outer scope) scope := by
  unfold stepLayers
  split
  next heq =>
      rw [heq]
      exact .done
  next hne => exact .step hne hc .done

theorem descends_conditions (path : String) (filters : List Filter) :
    Descends path (filters.map (.condition path)) path := by
  induction filters with
  | nil => exact .done
  | cons f filters ih => exact .condition ih

theorem descends_edges {path : String} {ds : List Decoder} (h : ∀ d ∈ ds, d.depth = path) :
    Descends path (ds.map .edge) path := by
  induction ds with
  | nil => exact .done
  | cons d ds ih =>
      obtain ⟨hd, hds⟩ := List.forall_mem_cons.mp h
      have hrest := ih hds
      subst hd
      exact .edge hrest

namespace Assembly

variable {catalog : Catalog} {a : Assembly}

/-- The layers of some paths lead from the root to the scope that they are put around. -/
theorem descends_layersFrom {paths : List String} {scope : String} {layers : List Layer}
    (hc : ∀ p ∈ scope :: paths, ∀ q ∈ scope :: paths, Path.Comparable p q)
    (h : a.layersFrom catalog paths scope = .ok layers) : Descends Path.root layers scope := by
  induction paths generalizing scope layers with
  | nil =>
      cases h
      exact descends_stepLayers (Or.inl (by simp [Path.contains]))
  | cons path paths ih =>
      obtain ⟨filter, -, h⟩ := Results.bind_eq_ok.mp h
      obtain ⟨outer, houter, h⟩ := Results.bind_eq_ok.mp h
      cases h
      have hpaths : ∀ p ∈ path :: paths, ∀ q ∈ path :: paths, Path.Comparable p q :=
        fun p hp q hq => hc p (List.mem_cons_of_mem _ hp) q (List.mem_cons_of_mem _ hq)
      have hstep : Path.Comparable path scope :=
        hc path (List.mem_cons_of_mem _ List.mem_cons_self) scope List.mem_cons_self
      -- the outer layers lead to `path`; its filter and its edges stay there, and then
      -- comes the step to the scope inside
      refine (ih hpaths houter).append (Descends.append ?_ (descends_stepLayers hstep))
      refine (descends_conditions path _).append (descends_edges ?_)
      intro d hd
      simpa using (List.mem_filter.mp hd).2

theorem descends_layers {layers : List Layer}
    (hc : ∀ p ∈ a.paths, ∀ q ∈ a.paths, Path.Comparable p q)
    (h : a.layers catalog = .ok layers) : Descends Path.root layers a.queryDepth := by
  have hquery : a.queryDepth ∈ a.paths := mem_paths.mpr (Or.inl rfl)
  refine descends_layersFrom ?_ h
  intro p hp q hq
  refine hc p ?_ q ?_
  · rcases List.mem_cons.mp hp with rfl | hp
    · exact hquery
    · exact hp
  · rcases List.mem_cons.mp hq with rfl | hq
    · exact hquery
    · exact hq

end Assembly

/-! ## Trees and scopes -/

section Trees

variable {inner : Aggs} {layers : List Layer} {scope target : String}

/-- **Layers make only legal steps.** -/
theorem legal_stacked (h : Descends scope layers target)
    (hs : ∀ d ∈ edges layers, d.kind.Sound) (hi : Aggs.Legal target inner) :
    Aggs.Legal scope (stacked inner layers) := by
  induction h with
  | done => exact hi
  | step hne hc _ ih =>
      obtain ⟨hlegal, hscope⟩ := Aggs.legal_step hne hc
      refine Aggs.legal_wrap.mpr ⟨hlegal, ?_⟩
      rw [hscope]
      exact ih hs hi
  | condition _ ih => exact Aggs.legal_wrap.mpr ⟨trivial, ih hs hi⟩
  | @edge target d layers _ ih =>
      have hsound : d.kind.Sound := hs d (by simp)
      have hrest := ih (fun e he => hs e (by simp [he])) hi
      show Aggs.Legal d.depth (d.kind.encode (stacked inner layers))
      rw [EdgeKind.encode_eq]
      exact Level.legal_stack (EdgeKind.stays_asks hsound) hrest

theorem stacked_ne_nil (hs : ∀ d ∈ edges layers, d.kind.Sound) (hi : inner ≠ []) :
    stacked inner layers ≠ [] := by
  induction layers with
  | nil => exact hi
  | cons layer layers ih =>
      cases layer with
      | step outer scope => exact List.cons_ne_nil _ _
      | condition path filter => exact List.cons_ne_nil _ _
      | edge d =>
          have hsound : d.kind.Sound := hs d (by simp)
          have hrest := ih fun e he => hs e (by simp [he])
          show d.kind.encode (stacked inner layers) ≠ []
          rw [EdgeKind.encode_eq]
          exact Level.stack_ne_nil (EdgeKind.stays_asks hsound) hrest

/-- **What a tree computes at its ends is what its metrics are**, in the scope that the layers
lead to. -/
theorem leaves_stacked (h : Descends scope layers target)
    (hs : ∀ d ∈ edges layers, d.kind.Sound) (hi : inner ≠ []) {leaf : String × AggKind}
    (hleaf : leaf ∈ Aggs.leaves scope (stacked inner layers)) :
    leaf ∈ Aggs.leaves target inner := by
  induction h with
  | done => exact hleaf
  | @step outer scope target layers hne hc _ ih =>
      obtain ⟨-, hscope⟩ := Aggs.legal_step hne hc
      have hleaf : leaf ∈ Aggs.leaves outer
          ((stacked inner layers).wrap "_nested" (Aggs.step outer scope)) := hleaf
      have hrest : ∀ e ∈ edges layers, e.kind.Sound := hs
      rw [Aggs.leaves_wrap (stacked_ne_nil hrest hi), hscope] at hleaf
      exact ih hrest hleaf
  | @condition path target filter layers _ ih =>
      have hleaf : leaf ∈ Aggs.leaves path
          ((stacked inner layers).wrap "_filter" (.filter filter)) := hleaf
      have hrest : ∀ e ∈ edges layers, e.kind.Sound := hs
      rw [Aggs.leaves_wrap (stacked_ne_nil hrest hi)] at hleaf
      exact ih hrest hleaf
  | @edge target d layers _ ih =>
      -- the edge holds the inner tree in each of its aggregations, all in its own scope
      have hsound : d.kind.Sound := hs d (by simp)
      have hrest : ∀ e ∈ edges layers, e.kind.Sound := fun e he => hs e (by simp [he])
      have hleaf : leaf ∈ Aggs.leaves d.depth (d.kind.encode (stacked inner layers)) := hleaf
      rw [EdgeKind.encode_eq] at hleaf
      exact ih hrest
        (Level.leaves_stack (EdgeKind.stays_asks hsound) (stacked_ne_nil hrest hi) hleaf)

/-- What is inside of some layers is found at the scope that they lead to. -/
theorem sits_stacked (h : Descends scope layers target)
    (hs : ∀ d ∈ edges layers, d.kind.Sound) :
    Aggs.Sits inner target scope (stacked inner layers) := by
  induction h with
  | done => exact .whole
  | step hne hc _ ih =>
      obtain ⟨-, hscope⟩ := Aggs.legal_step hne hc
      refine .inside List.mem_cons_self ?_
      rw [hscope]
      exact ih hs
  | condition _ ih => exact .inside List.mem_cons_self (ih hs)
  | @edge target d layers _ ih =>
      have hsound : d.kind.Sound := hs d (by simp)
      have hrest : ∀ e ∈ edges layers, e.kind.Sound := fun e he => hs e (by simp [he])
      show Aggs.Sits inner target d.depth (d.kind.encode (stacked inner layers))
      rw [EdgeKind.encode_eq]
      exact (ih hrest).trans (Level.sits_stack (EdgeKind.stays_asks hsound))

/-- Layers that lead to a scope lead there by way of each part of them. -/
theorem Descends.split {before after : List Layer}
    (h : Descends scope (before ++ after) target) :
    ∃ middle, Descends scope before middle ∧ Descends middle after target := by
  induction before generalizing scope with
  | nil => exact ⟨scope, .done, h⟩
  | cons layer before ih =>
      cases h with
      | step hne hc h =>
          obtain ⟨middle, hbefore, hafter⟩ := ih h
          exact ⟨middle, .step hne hc hbefore, hafter⟩
      | condition h =>
          obtain ⟨middle, hbefore, hafter⟩ := ih h
          exact ⟨middle, .condition hbefore, hafter⟩
      | edge h =>
          obtain ⟨middle, hbefore, hafter⟩ := ih h
          exact ⟨middle, .edge hbefore, hafter⟩

theorem edges_of_suffix {before after : List Layer} {P : Decoder → Prop}
    (h : ∀ d ∈ edges (before ++ after), P d) : ∀ d ∈ edges before, P d := by
  intro d hd
  exact h d (by rw [edges_append]; exact List.mem_append_left _ hd)

/-- An edge among the layers stands at its depth. -/
theorem sits_edge (h : Descends scope layers target) (hs : ∀ d ∈ edges layers, d.kind.Sound)
    {d : Decoder} (hd : d ∈ edges layers) :
    ∃ content, Aggs.Sits (d.encode content) d.depth scope (stacked inner layers) := by
  obtain ⟨layer, hmem, hlayer⟩ := List.mem_filterMap.mp hd
  -- what is outside of the edge leads to the scope that the edge itself starts from
  obtain ⟨before, after, rfl⟩ := List.append_of_mem hmem
  obtain ⟨middle, hbefore, hafter⟩ := h.split
  cases layer with
  | step outer inner => cases hlayer
  | condition path filter => cases hlayer
  | edge e =>
      cases hlayer
      cases hafter with
      | edge hafter =>
          refine ⟨stacked inner after, ?_⟩
          rw [stacked_append]
          exact sits_stacked hbefore (edges_of_suffix hs)

theorem sits_condition (h : Descends scope layers target)
    (hs : ∀ d ∈ edges layers, d.kind.Sound) {path : String} {filter : Filter}
    (hf : filter ∈ conditionsAt path layers) :
    ∃ content : Aggs, Aggs.Sits (content.wrap "_filter" (.filter filter)) path scope
      (stacked inner layers) := by
  obtain ⟨layer, hmem, hlayer⟩ := List.mem_filterMap.mp hf
  -- as for an edge: the layers outside lead to the scope of the condition
  obtain ⟨before, after, rfl⟩ := List.append_of_mem hmem
  obtain ⟨middle, hbefore, hafter⟩ := h.split
  cases layer with
  | step outer inner => cases hlayer
  | edge e => cases hlayer
  | condition p f =>
      simp only [Option.ite_none_right_eq_some, Option.some.injEq] at hlayer
      obtain ⟨rfl, rfl⟩ := hlayer
      cases hafter with
      | condition hafter =>
          refine ⟨stacked inner after, ?_⟩
          rw [stacked_append]
          exact sits_stacked hbefore (edges_of_suffix hs)

end Trees

/-! ## Compiled trees -/

/-- The nested paths of a query: the root, its own path, and those of its edges, its conditions
and its metrics. -/
def Pieces.nestedPaths (queryDepth : String) (p : Pieces) : List String :=
  [Path.root, queryDepth] ++ p.decoders.map (·.depth) ++ p.conditions.map (·.1)
    ++ p.additions.map (·.depth queryDepth)

/-- Whether an end of a tree, with its scope, is a metric of a select that is computed in the
nested documents that the select means. -/
def Computes (catalog : Catalog) (q : Query) (pieces : Pieces) (leaf : String × AggKind) : Prop :=
  ∃ s ∈ q.selects, ∃ a ∈ pieces.additions, s.Places catalog a
    ∧ a.depth catalog.queryDepth = leaf.1 ∧ a.kind.Joined leaf.2

/-- What scopes have to be like in a tree. -/
structure WellScoped (catalog : Catalog) (q : Query) (pieces : Pieces) (layers : List Layer)
    (tree : Aggs) : Prop where
  tree_eq : tree = stacked (pieces.metrics catalog.queryDepth) layers
  /-- Each step is one that the backend takes. -/
  legal : Aggs.Legal Path.root tree
  /-- The layers lead to the query path, with each edge and each condition at its own path. -/
  descends : Descends Path.root layers catalog.queryDepth
  /-- There is one layer for each decoder. -/
  perm_edges : (edges layers).Perm pieces.decoders
  edge : ∀ d ∈ pieces.decoders,
    ∃ content, Aggs.Sits (d.encode content) d.depth Path.root tree
  /-- A condition that may fail is one filter, at its path. -/
  condition : ∀ path c, (path, c) ∈ pieces.conditions → c.fold.isTrue = false →
    ∃ filter, c.fold.filter catalog = .ok filter ∧ conditionsAt path layers = [filter]
      ∧ ∃ content : Aggs,
        Aggs.Sits (content.wrap "_filter" (.filter filter)) path Path.root tree
  /-- There are no other filters. -/
  noCondition : ∀ path, (∀ c, (path, c) ∈ pieces.conditions → c.fold.isTrue = true) →
    conditionsAt path layers = []
  metrics : Aggs.Sits (pieces.metrics catalog.queryDepth) catalog.queryDepth Path.root tree
  metric : ∀ leaf ∈ Aggs.leaves catalog.queryDepth (pieces.metrics catalog.queryDepth),
    Computes catalog q pieces leaf
  /-- If there are metrics at all, nothing else is computed at the ends of the tree. -/
  leaf : pieces.metrics catalog.queryDepth ≠ [] →
    ∀ leaf ∈ Aggs.leaves Path.root tree, Computes catalog q pieces leaf

section Metrics

variable {catalog : Catalog} {options : Options} {q : Query} {pieces : Pieces}
  (hp : Pieces.ofQuery catalog options q = .ok pieces)
  (hc : ∀ a ∈ pieces.additions,
    Path.Comparable catalog.queryDepth (a.depth catalog.queryDepth))

include hp

/-- Every addition is one of a select that was planned. -/
theorem exists_select {a : Addition} (ha : a ∈ pieces.additions) :
    ∃ s ∈ q.selects, s.Places catalog a ∧ a.kind.Stays := by
  obtain ⟨-, -, -, hplans, -⟩ := Pieces.ofQuery_eq_ok hp
  obtain ⟨plan, hplan, ha⟩ := List.mem_flatMap.mp ha
  obtain ⟨s, hs, hof⟩ := Results.forall_mem_of_mapM hplans
    (P := fun plan => ∃ s ∈ q.selects,
      MetricPlan.ofSelect catalog options.bucketLimit s = .ok plan)
    (fun s hs plan hplan => ⟨s, hs, hplan⟩) plan hplan
  have hsane := MetricPlan.sane_ofSelect hof
  exact ⟨s, hs, hsane.placed a ha, hsane.stays a ha⟩

include hc

theorem legal_metrics :
    Aggs.Legal catalog.queryDepth (pieces.metrics catalog.queryDepth) := by
  rw [Aggs.legal_iff]
  intro entry hentry
  obtain ⟨a, ha, kind, hjoined, rfl⟩ := Addition.mem_metrics hentry
  obtain ⟨s, -, -, hstays⟩ := exists_select hp ha
  exact legal_placed (hjoined.stays hstays) (hc a ha)

theorem computes_of_leaf {leaf : String × AggKind}
    (hleaf : leaf ∈ Aggs.leaves catalog.queryDepth (pieces.metrics catalog.queryDepth)) :
    Computes catalog q pieces leaf := by
  obtain ⟨entry, hentry, hleaf⟩ := Aggs.mem_leaves.mp hleaf
  obtain ⟨a, ha, kind, hjoined, rfl⟩ := Addition.mem_metrics hentry
  obtain ⟨s, hs, hplaces, -⟩ := exists_select hp ha
  rw [leaves_placed (hc a ha), List.mem_singleton] at hleaf
  subst hleaf
  exact ⟨s, hs, a, ha, hplaces, rfl, hjoined⟩

end Metrics

/-- **Nested scoping is right**: when the nested paths of a query are comparable with each other,
its tree makes only legal steps, each edge and each condition stands at its own path, and each
metric is computed in the nested documents that it was placed for. -/
theorem wellScoped_of_compile {catalog : Catalog} {options : Options} {q : Query}
    {plan : GroupingPlan} (h : compile catalog options q = .ok plan) {pieces : Pieces}
    (hp : Pieces.ofQuery catalog options q = .ok pieces)
    (hc : ∀ p ∈ pieces.nestedPaths catalog.queryDepth,
      ∀ r ∈ pieces.nestedPaths catalog.queryDepth, Path.Comparable p r) :
    plan.decoders = pieces.decoders
      ∧ ∃ layers, (pieces.assembly catalog.queryDepth).layers catalog = .ok layers
        ∧ WellScoped catalog q pieces layers plan.tree := by
  obtain ⟨layers, hlayers, htree, hedges, hdecoders⟩ := layers_of_compile h hp
  have hperm : (edges layers).Perm pieces.decoders := by
    rw [hedges]
    exact pieces.perm_outer
  have hsound : ∀ d ∈ edges layers, d.kind.Sound :=
    fun d hd => Pieces.sound_decoders hp d (hperm.mem_iff.mp hd)
  -- the paths that the tree visits are among those of the query, so they are comparable
  have hpath : ∀ path ∈ (pieces.assembly catalog.queryDepth).paths,
      path ∈ pieces.nestedPaths catalog.queryDepth := by
    intro path hpath
    unfold Pieces.nestedPaths
    simp only [List.mem_append, List.mem_map]
    rcases Assembly.mem_paths.mp hpath with rfl | ⟨d, hd, rfl⟩ | ⟨c, hc, rfl⟩
    · exact Or.inl (Or.inl (Or.inl (by simp [Pieces.assembly])))
    · exact Or.inl (Or.inl (Or.inr ⟨d, pieces.perm_outer.mem_iff.mp hd, rfl⟩))
    · exact Or.inl (Or.inr ⟨c, hc, rfl⟩)
  have hmetric : ∀ a ∈ pieces.additions,
      Path.Comparable catalog.queryDepth (a.depth catalog.queryDepth) := by
    intro a ha
    refine hc _ ?_ _ ?_
    · simp [Pieces.nestedPaths]
    · exact List.mem_append_right _ (List.mem_map_of_mem ha)
  have hdescends : Descends Path.root layers catalog.queryDepth :=
    Assembly.descends_layers (fun p hp r hr => hc p (hpath p hp) r (hpath r hr)) hlayers
  have hnodup := Pieces.nodup_conditions hp
  refine ⟨hdecoders, layers, hlayers, ?_⟩
  rw [htree]
  refine
    { tree_eq := rfl
      legal := legal_stacked hdescends hsound (legal_metrics hp hmetric)
      descends := hdescends
      perm_edges := hperm
      edge := fun d hd => sits_edge hdescends hsound (hperm.mem_iff.mpr hd)
      condition := ?_
      noCondition := ?_
      metrics := sits_stacked hdescends hsound
      metric := fun leaf hleaf => computes_of_leaf hp hmetric hleaf
      leaf := fun hne leaf hleaf =>
        computes_of_leaf hp hmetric (leaves_stacked hdescends hsound hne hleaf) }
  · intro path c hmem hfalse
    have hlayer := Assembly.conditionsAt_layers hlayers hnodup hmem
    rw [hfalse] at hlayer
    obtain ⟨filter, hfilter, hat⟩ := hlayer
    refine ⟨filter, hfilter, hat, sits_condition hdescends hsound ?_⟩
    rw [hat]
    exact List.mem_singleton_self filter
  · intro path hall
    -- either the condition on the path always holds, or there is none
    by_cases hmem : path ∈ pieces.conditions.map (·.1)
    · obtain ⟨⟨p, c⟩, hpc, rfl⟩ := List.mem_map.mp hmem
      have hlayer := Assembly.conditionsAt_layers hlayers hnodup hpc
      rw [if_pos (hall c hpc)] at hlayer
      exact hlayer
    · exact Assembly.conditionsAt_layers_of_not_mem hlayers hmem

/-- The sample query steps into its nested documents below each bucket of its edge. -/
theorem wellScoped_sample : ∃ pieces layers,
    Pieces.ofQuery sampleCatalog .default sampleQuery = .ok pieces
      ∧ pieces.nestedPaths sampleCatalog.queryDepth = [".", "c", ".", "c"]
      ∧ WellScoped sampleCatalog sampleQuery pieces layers sampleGrouping.tree := by
  have hpaths : Pieces.nestedPaths sampleCatalog.queryDepth
      { unplaced := [sampleDecoder], plans := [samplePlan], conditions := [] }
        = [".", "c", ".", "c"] := by
    cbv
  obtain ⟨-, layers, -, hscoped⟩ := wellScoped_of_compile compile_sample ofQuery_sample (by
    rw [hpaths]
    decide)
  exact ⟨_, layers, ofQuery_sample, hpaths, hscoped⟩

end Tabula.Grouping
