import Mathlib
import Tabula.Proofs.Edge.Asks
import Tabula.Proofs.Grouping.Layers
import Tabula.Proofs.Grouping.Splitting

/-!
# The pieces of a compiled query

What compiling a query makes sure of: its plan consists of its pieces (`compile_eq_ok`), the
kinds of its decoders are sound (`sound_decoders`), its conditions have distinct paths
(`nodup_conditions`), and its tree is its metrics with layers around them whose edges are the
decoders (`layers_of_compile`).
-/

set_option autoImplicit false

namespace Tabula.Grouping

variable {catalog : Catalog} {options : Options} {q : Query}

/-- **A plan consists of the pieces of its query.** -/
theorem compile_eq_ok {plan : GroupingPlan} (h : compile catalog options q = .ok plan) :
    ∃ pieces tree, Pieces.ofQuery catalog options q = .ok pieces
      ∧ (pieces.assembly catalog.queryDepth).tree catalog = .ok tree
      ∧ plan = { tree, keyOrder := options.keyOrder, decoders := pieces.decoders
                 selects := (q.selects.zip pieces.plans).map fun s =>
                   { select := s.1, pull := s.2.pull } } := by
  obtain ⟨pieces, hpieces, h⟩ := Results.bind_eq_ok.mp h
  obtain ⟨tree, htree, h⟩ := Results.bind_eq_ok.mp h
  cases h
  exact ⟨pieces, tree, hpieces, htree, rfl⟩

namespace Pieces

variable {pieces : Pieces}

theorem ofQuery_eq_ok (h : ofQuery catalog options q = .ok pieces) :
    ∃ sorted, sortEdges q = .ok sorted
      ∧ sorted.mapM (decoderOf catalog options q) = .ok pieces.unplaced
      ∧ q.selects.mapM (MetricPlan.ofSelect catalog options.bucketLimit) = .ok pieces.plans
      ∧ split catalog q.condition = .ok pieces.conditions := by
  obtain ⟨sorted, hsorted, h⟩ := Results.bind_eq_ok.mp h
  obtain ⟨unplaced, hunplaced, h⟩ := Results.bind_eq_ok.mp h
  obtain ⟨plans, hplans, h⟩ := Results.bind_eq_ok.mp h
  obtain ⟨conditions, hconditions, h⟩ := Results.bind_eq_ok.mp h
  cases h
  exact ⟨sorted, hsorted, hunplaced, hplans, hconditions⟩

/-- A decoder is compiled from an edge of the query, under a limit that the options grant. -/
theorem unplaced_of_ofQuery (h : ofQuery catalog options q = .ok pieces) {P : Decoder → Prop}
    (hP : ∀ requested index e d,
      Decoder.ofEdge catalog options (options.limit (some requested)) index e = .ok d → P d) :
    ∀ d ∈ pieces.unplaced, P d := by
  obtain ⟨sorted, -, hunplaced, -, -⟩ := ofQuery_eq_ok h
  refine Results.forall_mem_of_mapM hunplaced ?_
  intro placed _ d hd
  exact hP _ _ _ d hd

/-- What holds of the decoders of edges, whatever steps they own, holds of those of the query. -/
theorem decoders_of_ofQuery (h : ofQuery catalog options q = .ok pieces) {P : Decoder → Prop}
    (hstart : ∀ (d : Decoder) (start : Nat), P { d with start } ↔ P d)
    (hP : ∀ requested index e d,
      Decoder.ofEdge catalog options (options.limit (some requested)) index e = .ok d → P d) :
    ∀ d ∈ pieces.decoders, P d := by
  have hmap := pieces.map_decoders P fun d start => propext (hstart d start)
  have hunplaced := unplaced_of_ofQuery h hP
  intro d hd
  have hmem : P d ∈ pieces.unplaced.map P := hmap ▸ List.mem_map_of_mem hd
  obtain ⟨e, he, heq⟩ := List.mem_map.mp hmem
  exact heq ▸ hunplaced e he

theorem sound_decoders (h : ofQuery catalog options q = .ok pieces) :
    ∀ d ∈ pieces.decoders, d.kind.Sound := by
  refine decoders_of_ofQuery h (fun _ _ => Iff.rfl) ?_
  intro requested index e d hd
  obtain ⟨depth, -, hd⟩ := Results.bind_eq_ok.mp hd
  obtain ⟨kind, hkind, hd⟩ := Results.bind_eq_ok.mp hd
  cases hd
  exact EdgeKind.sound_kind hkind

theorem nodup_conditions (h : ofQuery catalog options q = .ok pieces) :
    (pieces.conditions.map (·.1)).Nodup := by
  obtain ⟨-, -, -, -, hsplit⟩ := ofQuery_eq_ok h
  exact (ascending_of_split hsplit).nodup

end Pieces

/-- **A compiled tree is its metrics with layers around them**, whose edges are the decoders from
the outermost to the innermost. -/
theorem layers_of_compile {plan : GroupingPlan} (h : compile catalog options q = .ok plan)
    {pieces : Pieces} (hp : Pieces.ofQuery catalog options q = .ok pieces) :
    ∃ layers, (pieces.assembly catalog.queryDepth).layers catalog = .ok layers
      ∧ plan.tree = stacked (pieces.metrics catalog.queryDepth) layers
      ∧ edges layers = pieces.outer ∧ plan.decoders = pieces.decoders := by
  obtain ⟨pieces', tree, hpieces, htree, rfl⟩ := compile_eq_ok h
  obtain rfl : pieces = pieces' := by
    rw [hp] at hpieces
    cases hpieces
    rfl
  obtain ⟨layers, hlayers, heq⟩ := Assembly.tree_eq_stacked htree
  exact ⟨layers, hlayers, heq, Assembly.edges_layers hlayers pieces.sorted_outer, rfl⟩

/-! ## A query over nested documents

The edge lives outside of the nested documents that the query runs over, so each of its buckets
holds a step into them. -/

/-- Nested documents `c` with a number `m`, beside a text `a`. -/
def sampleCatalog : Catalog where
  table := "t"
  columns :=
    [{ name := "a", stored := "a", mapping := "keyword", type := .string, nestedPath := ["."] },
      { name := "c", stored := "c", mapping := "nested", type := .nested,
        nestedPath := ["c", "."] },
      { name := "c.m", stored := "c.m", mapping := "double", type := .number,
        nestedPath := ["c", "."] }]
  queryPath := ["c", "."]

def sampleSelect : Select where
  name := "m"
  value := .var "m"
  aggregate := .cardinality
  percentile := none
  default := .int 0

/-- The number of values of `m` for each value of `a`. -/
def sampleQuery : Query where
  table := "t.c"
  selects := [sampleSelect]
  shape := .list
  edges := [.ofField "a"]
  groupby := []
  condition := .literal (.bool true)
  sort := []
  limit := none
  format := .list
  save := false
  written := none

def sampleDecoder : Decoder where
  name := "a"
  edgeIndex := 0
  depth := Path.root
  start := 0
  allowNulls := true
  kind := .value
    { source := .column "a", missing := .missing "a", sort := none, limit := 10, policy := .drop,
      tally := .empty }

def samplePlan : MetricPlan where
  additions :=
    [.metric { name := "c.m_cardinality", kind := .cardinality (.column "c.m"), depth := "c" }]
  pull := .path ["c.m_cardinality", "value"]

def sampleMetrics : Aggs := [("c.m_cardinality", .leaf (.cardinality (.column "c.m")))]

def sampleInner : Aggs := [("_nested", .node (.nested "c") sampleMetrics)]

def sampleGrouping : GroupingPlan where
  tree :=
    [("_match", .node (.terms (.column "a") (some 10) none none) sampleInner),
      ("_missing", .node (.missing "a") sampleInner)]
  keyOrder := .key
  decoders := [sampleDecoder]
  selects := [{ select := sampleSelect, pull := samplePlan.pull }]

theorem compile_sample : compile sampleCatalog .default sampleQuery = .ok sampleGrouping := by
  cbv

theorem ofQuery_sample : Pieces.ofQuery sampleCatalog .default sampleQuery
    = .ok { unplaced := [sampleDecoder], plans := [samplePlan], conditions := [] } := by
  cbv

end Tabula.Grouping
