import Tabula.Proofs.Grouping.Pieces
import Tabula.Proofs.Response.Choices

/-!
# Rows are ways down the layers

A way down a response chooses, at every edge, one bucket of each of its levels (`ways`); steps
and conditions leave no choice. Ways follow the layers of the tree that was sent, and know each
name that they look up. `Response.walk` sees only the response and a number of levels. On every
mirror of a compiled tree the rows of the walk are the ways, and each decoder finds the choices
of its own edge in a row.
-/

set_option autoImplicit false

namespace Tabula.Grouping

open Response (walk)
open Level (passes prepend)

/-! ## Ways -/

/-- A way down a response: the choices made at each edge, and the node it ends at. -/
structure Way where
  choices : List (Decoder × List Choice)
  node : Json

def Way.row (w : Way) : PathRow where
  parts := (w.choices.map fun c => c.2.map Choice.part).flatten
  node := w.node

def ways : List Layer → Json → List Way
  | [], node => [{ choices := [], node }]
  | .step _ _ :: rest, node => ways rest (node.getD "_nested")
  | .condition _ _ :: rest, node => ways rest (node.getD "_filter")
  | .edge d :: rest, node =>
      (passes d.kind.asks node).flatMap fun p =>
        (ways rest p.node).map fun w => { w with choices := (d, p.choices) :: w.choices }

/-- Whether the decoder of an edge asks for what it can read: its kind is sound, and the indices
of its partitions are machine words. -/
def Readable (d : Decoder) : Prop := d.kind.Sound ∧ d.partitionCount ≤ 2 ^ 64

theorem Readable.proper {d : Decoder} (h : Readable d) : ∀ level ∈ d.kind.asks, level.Proper :=
  EdgeKind.proper_asks h.1 h.2

/-! ## Layers of a mirror -/

section Mirror

variable {inner : Aggs} {layers : List Layer} {node : Json}

theorem mirrors_step {outer scope : String}
    (h : (stacked inner (.step outer scope :: layers)).Mirrors node) :
    (stacked inner layers).Mirrors (node.getD "_nested")
      ∧ Response.drill node = Response.drill (node.getD "_nested") := by
  have hshape : (Aggs.step outer scope).shape = .single := by
    unfold Aggs.step
    split
    next => rfl
    next => rfl
  obtain ⟨fields, child, rfl, hframed, hget, hchild⟩ :=
    Aggs.mirrors_wrap (by decide) hshape h
  have hfilter : Fields.get? "_filter" fields = none :=
    hframed.get?_eq_none (by decide) (by decide)
  have hmember : Json.getD "_nested" (.obj fields) = child := by
    rw [Json.getD, Json.get?, hget, Option.getD_some]
  rw [hmember]
  exact ⟨hchild, Response.drill_nested hfilter hget⟩

theorem mirrors_condition {path : String} {filter : Filter}
    (h : (stacked inner (.condition path filter :: layers)).Mirrors node) :
    (stacked inner layers).Mirrors (node.getD "_filter")
      ∧ Response.drill node = Response.drill (node.getD "_filter") := by
  obtain ⟨fields, child, rfl, hframed, hget, hchild⟩ := Aggs.mirrors_wrap (by decide) rfl h
  have hmember : Json.getD "_filter" (.obj fields) = child := by
    rw [Json.getD, Json.get?, hget, Option.getD_some]
  rw [hmember]
  exact ⟨hchild, Response.drill_filter hget⟩

theorem mirrors_edge {d : Decoder} (h : (stacked inner (.edge d :: layers)).Mirrors node) :
    (Level.stack (stacked inner layers) d.kind.asks).Mirrors node := by
  rw [← EdgeKind.encode_eq]
  exact h

/-- The metrics of a mirror are found where they are, when none is named like a wrapper. -/
theorem drill_metrics (hf : "_filter" ∉ inner.map (·.1)) (hn : "_nested" ∉ inner.map (·.1))
    (h : inner.Mirrors node) : Response.drill node = node := by
  obtain ⟨fields, rfl, hframed, -⟩ := h
  exact hframed.drill hf hn

end Mirror

/-! ## Rows and ways -/

/-- **The rows of a mirror are its ways**, in some order. -/
theorem walk_perm_ways {inner : Aggs} (hf : "_filter" ∉ inner.map (·.1))
    (hn : "_nested" ∉ inner.map (·.1)) {layers : List Layer}
    (hl : ∀ d ∈ edges layers, Readable d) {node : Json}
    (h : (stacked inner layers).Mirrors node) :
    (walk (totalLevels (edges layers)) node).Perm ((ways layers node).map Way.row) := by
  -- on the layers: wrappers are drilled away on both sides, and an edge multiplies the rows
  induction layers generalizing node with
  | nil =>
      have hdrill : Response.drill node = node := drill_metrics hf hn h
      show (walk 0 node).Perm _
      rw [walk, hdrill]
      exact List.Perm.refl _
  | cons layer layers ih =>
      cases layer with
      | step outer scope =>
          obtain ⟨hinner, hdrill⟩ := mirrors_step h
          rw [← Level.walk_drill, hdrill, Level.walk_drill]
          exact ih hl hinner
      | condition path filter =>
          obtain ⟨hinner, hdrill⟩ := mirrors_condition h
          rw [← Level.walk_drill, hdrill, Level.walk_drill]
          exact ih hl hinner
      | edge d =>
          have hproper : ∀ level ∈ d.kind.asks, level.Proper := (hl d (by simp)).proper
          have hrest : ∀ e ∈ edges layers, Readable e := fun e he => hl e (by simp [he])
          have hlevels : totalLevels (edges (.edge d :: layers))
              = d.kind.asks.length + totalLevels (edges layers) := by
            rw [edges_edge, totalLevels_cons, EdgeKind.length_asks]
            rfl
          rw [hlevels]
          -- the rows below the edge's own choices, each of which ends at a mirror of the rest
          refine (Level.walk_levels hproper (mirrors_edge h) _).trans ?_
          rw [ways, List.map_flatMap]
          refine List.Perm.flatMap_left _ fun p hp => ?_
          have hrows := ih hrest (Level.mirrors_of_mem_passes hproper (mirrors_edge h) hp)
          refine (hrows.map _).trans (List.Perm.of_eq ?_)
          rw [List.map_map, List.map_map]
          rfl

/-- A way makes choices at the edges in their order, one at each level, and ends at the mirror of
what the layers are around. -/
theorem forall_mem_ways {inner : Aggs} {layers : List Layer}
    (hl : ∀ d ∈ edges layers, Readable d) {node : Json}
    (h : (stacked inner layers).Mirrors node) {w : Way} (hw : w ∈ ways layers node) :
    w.choices.map (·.1) = edges layers
      ∧ (∀ c ∈ w.choices, c.2.length = c.1.levels) ∧ inner.Mirrors w.node := by
  -- on the layers: only an edge has choices to make
  induction layers generalizing node w with
  | nil =>
      rw [ways, List.mem_singleton] at hw
      rw [hw]
      exact ⟨rfl, by simp, h⟩
  | cons layer layers ih =>
      cases layer with
      | step outer scope => exact ih hl (mirrors_step h).1 hw
      | condition path filter => exact ih hl (mirrors_condition h).1 hw
      | edge d =>
          have hproper : ∀ level ∈ d.kind.asks, level.Proper := (hl d (by simp)).proper
          have hrest : ∀ e ∈ edges layers, Readable e := fun e he => hl e (by simp [he])
          obtain ⟨p, hp, hw⟩ := List.mem_flatMap.mp hw
          obtain ⟨v, hv, rfl⟩ := List.mem_map.mp hw
          have hinner := Level.mirrors_of_mem_passes hproper (mirrors_edge h) hp
          obtain ⟨hedges, hlen, hnode⟩ := ih hrest hinner hv
          refine ⟨?_, ?_, hnode⟩
          · rw [List.map_cons, hedges]
            rfl
          · intro c hc
            rcases List.mem_cons.mp hc with rfl | hc
            · exact (Level.length_of_mem_passes hp).trans (EdgeKind.length_asks _)
            · exact hlen c hc

/-- In the row of a way each decoder finds the steps of its own choices. -/
theorem Way.ownParts {w : Way} {ds : List Decoder} (ht : Tiled 0 ds)
    (hd : w.choices.map (·.1) = ds) (hlen : ∀ c ∈ w.choices, c.2.length = c.1.levels) :
    w.row.parts.length = totalLevels ds
      ∧ ∀ c ∈ w.choices, c.1.ownParts w.row.parts = .ok (c.2.map Choice.part) := by
  subst hd
  -- the row is the flattened list of the choices' steps, one part for each decoder
  have hfit : List.Forall₂ (fun (d : Decoder) (ps : List Part) => ps.length = d.levels)
      (w.choices.map (·.1)) (w.choices.map fun c => c.2.map Choice.part) := by
    rw [List.forall₂_map_left_iff, List.forall₂_map_right_iff, List.forall₂_same]
    intro c hc
    rw [List.length_map, hlen c hc]
  constructor
  · show (w.choices.map fun c => c.2.map Choice.part).flatten.length = _
    rw [List.length_flatten, totalLevels, List.map_map, List.map_map]
    congr 1
    refine List.map_congr_left fun c hc => ?_
    simp [hlen c hc]
  · have hslices := ht.slices hfit (show ([] : List Part).length = 0 from rfl)
    rw [List.forall₂_map_left_iff, List.forall₂_map_right_iff, List.forall₂_same] at hslices
    exact hslices

/-! ## Requests and responses -/

/-- **Request and response agree**: on every mirror of a compiled tree, the rows are the ways to
choose one bucket at every level of its edges. Each decoder finds in a row the choices of its own
edge and no others, the decoders share the steps of the row without gaps, and the node of the row
is the mirror of the metrics. -/
theorem rows_perm_ways {catalog : Catalog} {options : Options} {q : Query} {plan : GroupingPlan}
    (h : compile catalog options q = .ok plan) {pieces : Pieces}
    (hp : Pieces.ofQuery catalog options q = .ok pieces)
    (hmetrics : ∀ metric ∈ pieces.metrics catalog.queryDepth,
      metric.1 ≠ "_filter" ∧ metric.1 ≠ "_nested")
    (hwords : ∀ d ∈ plan.decoders, d.partitionCount ≤ 2 ^ 64) {root : Json}
    (hroot : plan.tree.Mirrors root) :
    ∃ layers, (pieces.assembly catalog.queryDepth).layers catalog = .ok layers
      ∧ plan.tree = stacked (pieces.metrics catalog.queryDepth) layers
      ∧ (edges layers).Perm plan.decoders ∧ Tiled 0 (edges layers)
      ∧ (walk (levels plan.decoders) root).Perm ((ways layers root).map Way.row)
      ∧ ∀ w ∈ ways layers root, w.choices.map (·.1) = edges layers
        ∧ (∀ c ∈ w.choices, c.2.length = c.1.levels
          ∧ c.1.ownParts w.row.parts = .ok (c.2.map Choice.part))
        ∧ w.row.parts.length = levels plan.decoders
        ∧ (pieces.metrics catalog.queryDepth).Mirrors w.row.node := by
  obtain ⟨layers, hlayers, htree, hedges, hdecoders⟩ := layers_of_compile h hp
  have hperm : (edges layers).Perm plan.decoders := by
    rw [hedges, hdecoders]
    exact pieces.perm_outer
  have htiled : Tiled 0 (edges layers) := by
    rw [hedges]
    exact pieces.tiled_outer
  have hlevels : levels plan.decoders = totalLevels (edges layers) := by
    rw [hedges, hdecoders]
    exact pieces.levels_decoders
  have hreadable : ∀ d ∈ edges layers, Readable d := by
    intro d hd
    have hd := hperm.mem_iff.mp hd
    refine ⟨?_, hwords d hd⟩
    rw [hdecoders] at hd
    exact Pieces.sound_decoders hp d hd
  -- a metric named like a wrapper would be drilled into
  have hfilter : "_filter" ∉ (pieces.metrics catalog.queryDepth).map (·.1) := by
    intro hmem
    obtain ⟨metric, hm, heq⟩ := List.mem_map.mp hmem
    exact (hmetrics metric hm).1 heq
  have hnested : "_nested" ∉ (pieces.metrics catalog.queryDepth).map (·.1) := by
    intro hmem
    obtain ⟨metric, hm, heq⟩ := List.mem_map.mp hmem
    exact (hmetrics metric hm).2 heq
  rw [htree] at hroot
  refine ⟨layers, hlayers, htree, hperm, htiled, ?_, ?_⟩
  · rw [hlevels]
    exact walk_perm_ways hfilter hnested hreadable hroot
  · intro w hw
    obtain ⟨hchoices, hlen, hnode⟩ := forall_mem_ways hreadable hroot hw
    obtain ⟨hparts, hown⟩ := Way.ownParts htiled hchoices hlen
    refine ⟨hchoices, fun c hc => ⟨hlen c hc, hown c hc⟩, ?_, hnode⟩
    rw [hlevels, hparts]

/-! ## A response -/

def sampleNode : Json :=
  .obj [("doc_count", .int 9), ("c.m_cardinality", .obj [("value", .int 2)])]

/-- The documents that have no `a`, with the nested ones in them. -/
def sampleBucket : Json := .obj [("doc_count", .int 5), ("_nested", sampleNode)]

def sampleRoot : Json :=
  .obj [("_match", .obj [("buckets", .arr [])]), ("_missing", sampleBucket)]

theorem mirrors_sample : sampleGrouping.tree.Mirrors sampleRoot := by
  have hnode : sampleMetrics.Mirrors sampleNode :=
    ⟨_, rfl, ⟨by decide, by decide⟩, ⟨_, rfl, Or.inl (by decide)⟩, trivial⟩
  have hbucket : sampleInner.Mirrors sampleBucket :=
    ⟨_, rfl, ⟨by decide, by decide⟩, ⟨_, rfl, Or.inr hnode⟩, trivial⟩
  exact ⟨_, rfl, ⟨by decide, by decide⟩,
    ⟨_, rfl, Or.inr ⟨_, [], rfl, ⟨by decide, by decide⟩, rfl, by simp⟩⟩,
    ⟨_, rfl, Or.inr hbucket⟩, trivial⟩

/-- The rows of the sample are its ways. -/
theorem rows_perm_ways_sample :
    ∃ layers, sampleGrouping.tree = stacked sampleMetrics layers
      ∧ (walk (levels sampleGrouping.decoders) sampleRoot).Perm
        ((ways layers sampleRoot).map Way.row) := by
  obtain ⟨layers, -, htree, -, -, hrows, -⟩ :=
    rows_perm_ways compile_sample ofQuery_sample (by decide) (by decide) mirrors_sample
  exact ⟨layers, htree, hrows⟩

/-- The numbers outside of a range, in a response that holds them. -/
def sampleOutside : Json :=
  .obj [("_match", .obj [("buckets", .arr [])]),
    ("_other", .obj [("buckets", .arr [sampleBucket])])]

/-- **A step need not hold its bucket.** The one bucket of the sample's edge is that of the
missing values, and the one row holds the node inside its wrapper. A range asks for the buckets
outside of it as well, and a row through one of them does not hold it at all. -/
theorem part_ne_bucket :
    compile sampleCatalog .default sampleQuery = .ok sampleGrouping
      ∧ sampleGrouping.tree.Mirrors sampleRoot
      ∧ sampleDecoder.kind.asks.map (fun level => (level.choices sampleRoot).map (·.bucket))
        = [[sampleBucket]]
      ∧ walk (levels sampleGrouping.decoders) sampleRoot
        = [{ parts := [.missing sampleNode], node := sampleNode }]
      ∧ sampleNode ≠ sampleBucket
      ∧ (∀ (e : RangeEdge) (inner : Aggs),
        ("_other", .node (.range e.source e.outside) inner) ∈ (EdgeKind.range e).encode inner)
      ∧ walk 1 sampleOutside = [{ parts := [.other], node := sampleNode }] := by
  refine ⟨compile_sample, mirrors_sample, rfl, rfl, ?_, ?_, rfl⟩
  · intro heq
    have hcount := congrArg Response.docCount heq
    exact absurd hcount (by decide)
  · intro e inner
    simp [EdgeKind.encode, RangeEdge.encode, RangeEdge.ranges]

end Tabula.Grouping
