import Mathlib
import Tabula.Proofs.Edge.Frequency
import Tabula.Proofs.Grouping.Placing

/-!
# How partitions are ranked

Every row of a response is counted, and a bucket is passed by as many rows as there are ways on
from it (`walk_add`). So a discovered domain meets a bucket's documents once for each of the rows
below the bucket (`filterMap_met?_walk`), and its partitions are ranked by these sums
(`partitions_ranked`). They are ranked by documents where the buckets have one row each below them,
as on the innermost level, and need not be elsewhere (`partitions_not_ranked`). The sums have 64
bits; as long as they fit, they are exact.
-/

set_option autoImplicit false

namespace Tabula

namespace Response

/-! ## Rows in two parts -/

open Level (prepend)

/-- **The rows through more levels** are the rows on from each row through the first ones. -/
theorem walk_add (n m : Nat) (node : Json) :
    walk (n + m) node
      = (walk n node).flatMap fun row => (walk m row.node).map (prepend row.parts) := by
  induction n generalizing node with
  | zero =>
      rw [Nat.zero_add, walk, List.flatMap_singleton, Level.walk_drill, Level.map_prepend_nil]
  | succ n ih =>
      rw [Nat.add_right_comm]
      cases hdrill : drill node with
      | obj fields =>
          rw [Level.walk_succ hdrill, Level.walk_succ hdrill, List.flatMap_assoc]
          refine List.flatMap_congr fun member _ => ?_
          rw [List.flatMap_assoc]
          refine List.flatMap_congr fun step _ => ?_
          rw [ih, below, List.map_flatMap, below, List.flatMap_map]
          refine List.flatMap_congr fun row _ => ?_
          exact Level.below_map_prepend step.1 row.parts (walk m row.node)
      | _ => simp [walk, hdrill]

/-! ## Matched buckets -/

def matchedBucket? : Part → Option Json
  | .matched _ bucket => some bucket
  | .missing _ | .other | .join _ _ => none

/-- The buckets of values on a level below a node: those at the end of the ways down to it. -/
def matchedBuckets (level : Nat) (node : Json) : List Json :=
  (walk (level + 1) node).filterMap fun row => row.parts.getLast?.bind matchedBucket?

theorem node_of_mem_steps {name : String} {child : Json} {step : Part × Json}
    (h : step ∈ steps name child) {bucket : Json} (hb : matchedBucket? step.1 = some bucket) :
    step.2 = bucket := by
  unfold steps at h
  split at h
  next =>
      rw [Level.matchedSteps_eq] at h
      obtain ⟨b, -, rfl⟩ := List.mem_map.mp h
      exact Option.some.inj hb
  next =>
      obtain ⟨b, -, rfl⟩ := List.mem_map.mp h
      cases hb
  next =>
      rw [List.mem_singleton.mp h] at hb
      cases hb
  next =>
      rw [List.mem_singleton.mp h] at hb
      cases hb
  all_goals cases h

/-- A row that ends with the bucket of a value ends at the node in the bucket. -/
theorem node_of_mem_walk {n : Nat} {node : Json} {row : PathRow} (h : row ∈ walk n node)
    {bucket : Json} (hb : row.parts.getLast?.bind matchedBucket? = some bucket) :
    row.node = drill bucket := by
  induction n generalizing node row with
  | zero =>
      rw [walk, List.mem_singleton] at h
      rw [h] at hb
      cases hb
  | succ n ih =>
      rw [walk] at h
      split at h
      next fields _ =>
          obtain ⟨⟨part, child⟩, hstep, h⟩ := List.mem_flatMap.mp h
          obtain ⟨member, -, hstep⟩ := List.mem_flatMap.mp hstep
          obtain ⟨inner, hinner, rfl⟩ := List.mem_map.mp h
          rw [List.getLast?_cons] at hb
          cases hlast : inner.parts.getLast? with
          | none =>
              -- the step is the last one, and the row ends where it leads to
              have hnil : inner.parts = [] := List.getLast?_eq_none_iff.mp hlast
              have hzero : n = 0 := by rw [← length_of_mem_walk hinner, hnil, List.length_nil]
              subst hzero
              rw [hlast, Option.getD_none, Option.bind_some] at hb
              rw [walk, List.mem_singleton] at hinner
              rw [hinner, ← node_of_mem_steps hstep hb]
          | some last =>
              rw [hlast, Option.getD_some, ← hlast] at hb
              have hnode : inner.node = drill bucket := ih hinner hb
              exact hnode
      next => simp at h

end Response

/-! ## What a decoder meets -/

section Met

open Response

variable {d : Decoder} {e : ValueEdge}

/-- What a row adds to a domain of values depends on its step of that level. -/
theorem met?_prepend (hkind : d.kind = .value e) {parts : List Part}
    (hlength : parts.length = d.start + 1) (row : PathRow) :
    d.kind.met? (d.own (Level.prepend parts row).parts)
      = (parts.getLast?.bind matchedBucket?).map fun b => (bucketKey b, (docCount b).toUInt64) := by
  have hne : parts ≠ [] := List.ne_nil_of_length_eq_add_one hlength
  obtain ⟨outer, last, rfl⟩ : ∃ outer last, parts = outer ++ [last] :=
    ⟨_, _, (List.dropLast_append_getLast hne).symm⟩
  have hstart : outer.length = d.start := by simpa using hlength
  have hown : d.own (Level.prepend (outer ++ [last]) row).parts = [last] := by
    have hlevels : d.levels = 1 := by rw [Decoder.levels, hkind]; rfl
    have hparts : (Level.prepend (outer ++ [last]) row).parts = outer ++ last :: row.parts := by
      rw [Level.prepend, List.append_assoc, List.singleton_append]
    rw [Decoder.own, hparts, ← hstart, List.drop_left, hlevels]
    rfl
  rw [hown, hkind, List.getLast?_concat, Option.bind_some]
  cases last <;> rfl

/-- **A domain meets each bucket once for each row below it.** -/
theorem filterMap_met?_walk (hkind : d.kind = .value e) (m : Nat) (root : Json) :
    ((walk (d.start + 1 + m) root).map fun row => d.own row.parts).filterMap d.kind.met?
      = (matchedBuckets d.start root).flatMap fun b =>
          List.replicate (walk m b).length (bucketKey b, (docCount b).toUInt64) := by
  calc
    ((walk (d.start + 1 + m) root).map fun row => d.own row.parts).filterMap d.kind.met?
        = (walk (d.start + 1) root).flatMap fun row =>
            (walk m row.node).filterMap fun _ =>
              (row.parts.getLast?.bind matchedBucket?).map fun b =>
                (bucketKey b, (docCount b).toUInt64) := by
          rw [walk_add, List.map_flatMap, List.filterMap_flatMap]
          refine List.flatMap_congr fun row hrow => ?_
          rw [List.map_map, List.filterMap_map]
          refine List.filterMap_congr fun inner _ => ?_
          exact met?_prepend hkind (length_of_mem_walk hrow) inner
    _ = (walk (d.start + 1) root).flatMap fun row =>
          ((row.parts.getLast?.bind matchedBucket?).toList).flatMap fun b =>
            List.replicate (walk m b).length (bucketKey b, (docCount b).toUInt64) := by
          refine List.flatMap_congr fun row hrow => ?_
          cases hb : row.parts.getLast?.bind matchedBucket? with
          | none => simp
          | some b =>
              rw [node_of_mem_walk hrow hb, Level.walk_drill, Option.toList_some,
                List.flatMap_singleton, Option.map_some]
              simp
    _ = (matchedBuckets d.start root).flatMap fun b =>
          List.replicate (walk m b).length (bucketKey b, (docCount b).toUInt64) := by
          rw [matchedBuckets, List.filterMap_eq_flatMap_toList, List.flatMap_assoc]

end Met

/-! ## Weights -/

namespace Response

/-- The sum of what the buckets of some keys weigh. -/
def weight (weigh : Json → Nat) (p : String → Bool) (buckets : List Json) : Nat :=
  ((buckets.filter fun b => p (valueKey (bucketKey b))).map weigh).sum

theorem weight_cons (weigh : Json → Nat) (p : String → Bool) (b : Json) (buckets : List Json) :
    weight weigh p (b :: buckets)
      = (if p (valueKey (bucketKey b)) then weigh b else 0) + weight weigh p buckets := by
  simp only [weight, List.filter_cons]
  split
  next => rw [List.map_cons, List.sum_cons]
  next => rw [Nat.zero_add]

theorem weight_le_all (weigh : Json → Nat) (p : String → Bool) (buckets : List Json) :
    weight weigh p buckets ≤ weight weigh (fun _ => true) buckets := by
  induction buckets with
  | nil => exact Nat.le_refl 0
  | cons b buckets ih =>
      rw [weight_cons, weight_cons, if_pos rfl]
      split
      next => omega
      next => omega

/-- What is added up several times in 64 bits is that multiple in 64 bits. -/
theorem sum_replicate_toUInt64 (n docs : Nat) :
    (List.replicate n docs.toUInt64).sum = (n * docs).toUInt64 := by
  induction n with
  | zero => rw [Nat.zero_mul]; rfl
  | succ n ih =>
      rw [List.replicate_succ, List.sum_cons, ih, Nat.succ_mul, Nat.add_comm]
      exact (UInt64.ofNat_add _ _).symm

/-- Buckets that are met several times weigh as much as often, in 64 bits. -/
theorem docsOf_flatMap (times : Json → Nat) (p : String → Bool) (buckets : List Json) :
    Tally.docsOf p
        (buckets.flatMap fun b => List.replicate (times b) (bucketKey b, (docCount b).toUInt64))
      = (weight (fun b => times b * docCount b) p buckets).toUInt64 := by
  induction buckets with
  | nil => rfl
  | cons b buckets ih =>
      have hreplicate :
          Tally.docsOf p (List.replicate (times b) (bucketKey b, (docCount b).toUInt64))
            = (if p (valueKey (bucketKey b)) then times b * docCount b else 0).toUInt64 := by
        rw [Tally.docsOf, List.filter_replicate]
        split
        next => rw [List.map_replicate, sum_replicate_toUInt64]
        next => rfl
      rw [List.flatMap_cons, Tally.docsOf_append, hreplicate, ih, weight_cons]
      exact (UInt64.ofNat_add _ _).symm

/-- Weights that have 64 bits together are not changed by counting them in 64 bits. -/
theorem toNat_weight {weigh : Json → Nat} {buckets : List Json}
    (hfit : weight weigh (fun _ => true) buckets < 2 ^ 64) (p : String → Bool) :
    (weight weigh p buckets).toUInt64.toNat = weight weigh p buckets := by
  have hlt := Nat.lt_of_le_of_lt (weight_le_all weigh p buckets) hfit
  exact UInt64.toNat_ofNat_of_lt hlt

/-- What weighs more by a factor adds up to more by that factor. -/
theorem weight_mul {k : Nat} {weigh weigh' : Json → Nat} {buckets : List Json}
    (h : ∀ b ∈ buckets, weigh' b = k * weigh b) (p : String → Bool) :
    weight weigh' p buckets = k * weight weigh p buckets := by
  rw [weight, weight, ← List.sum_map_mul_left,
    List.map_congr_left fun b hb => h b (List.mem_filter.mp hb).1]

end Response

/-! ## Ranking -/

open Response (walk matchedBuckets weight bucketKey docCount)

/-- Whether a domain ranks the values of buckets by what the buckets of their keys weigh together:
the heaviest first, and none beyond the partitions heavier than one of them. -/
structure OutputDomain.Ranks {α : Type} [LE α] (weigh : (String → Bool) → α) (buckets : List Json)
    (domain : OutputDomain) : Prop where
  descending : domain.partitions.Pairwise fun v w =>
    weigh (· = valueKey w) ≤ weigh (· = valueKey v)
  beyond_le : ∀ b ∈ buckets, valueKey (bucketKey b) ∉ domain.partitions.map valueKey →
    ∀ v ∈ domain.partitions, weigh (· = valueKey (bucketKey b)) ≤ weigh (· = valueKey v)

namespace OutputDomain.Ranks

variable {buckets : List Json} {domain : OutputDomain}

/-- Weights of the same order rank the same. -/
theorem mono {α β : Type} [LE α] [LE β] {weigh : (String → Bool) → α}
    {weigh' : (String → Bool) → β} (hle : ∀ p p', weigh p ≤ weigh p' → weigh' p ≤ weigh' p')
    (h : domain.Ranks weigh buckets) : domain.Ranks weigh' buckets where
  descending := h.descending.imp (hle _ _)
  beyond_le b hb hbeyond v hv := hle _ _ (h.beyond_le b hb hbeyond v hv)

/-- Weights that have 64 bits together rank as they do in 64 bits. -/
theorem exact {weigh : Json → Nat} (hfit : weight weigh (fun _ => true) buckets < 2 ^ 64)
    (h : domain.Ranks (fun p => (weight weigh p buckets).toUInt64) buckets) :
    domain.Ranks (weight weigh · buckets) buckets := by
  refine h.mono fun p p' hle => ?_
  rw [UInt64.le_iff_toNat_le, Response.toNat_weight hfit, Response.toNat_weight hfit] at hle
  exact hle

/-- What weighs more by a factor ranks the same. -/
theorem of_mul {k : Nat} (hk : 0 < k) {weigh weigh' : Json → Nat}
    (hweigh : ∀ b ∈ buckets, weigh' b = k * weigh b)
    (h : domain.Ranks (weight weigh' · buckets) buckets) :
    domain.Ranks (weight weigh · buckets) buckets := by
  refine h.mono fun p p' hle => ?_
  rw [Response.weight_mul hweigh, Response.weight_mul hweigh] at hle
  exact Nat.le_of_mul_le_mul_left hle hk

end OutputDomain.Ranks

theorem EdgeKind.partitions_value (e : ValueEdge) :
    (EdgeKind.value e).partitions = e.tally.partitions := by
  show (List.range e.tally.size).map (fun i => (e.tally.value? i).getD .null) = _
  unfold Tally.size Tally.value? Tally.partitions
  cases e.tally.frozen with
  | none => rfl
  | some f =>
      refine List.ext_getElem (by simp) fun i hi hi' => ?_
      have hlt : i < f.retained.length := by simpa using hi
      simp [List.getElem?_eq_getElem hlt]

/-- **A counted decoder ranks by rows.** Each bucket of its level weighs its documents as often as
there are rows below it, and so do the buckets that make up the overflow. -/
theorem Decoder.ranks_counted {d : Decoder} {e : ValueEdge} (hkind : d.kind = .value e)
    (hsort : e.sort = none) {policy : Overflow} (hfresh : d.kind.Fresh policy) (m : Nat)
    (root : Json) :
    let domain := (d.counted (walk (d.start + 1 + m) root)).outputDomain
    let buckets := matchedBuckets d.start root
    let weigh (p : String → Bool) : UInt64 :=
      (weight (fun b => (walk m b).length * docCount b) p buckets).toUInt64
    domain.Ranks weigh buckets
      ∧ (policy = .other →
        domain.overflow.getD 0 = weigh (· ∉ domain.partitions.map valueKey)) := by
  intro domain buckets weigh
  obtain ⟨hempty, hpolicy⟩ := hfresh _ (by rw [hkind]; rfl)
  have hcounted := Decoder.kind_counted (walk (d.start + 1 + m) root) d
  rw [filterMap_met?_walk hkind m root] at hcounted
  generalize hmet : (matchedBuckets d.start root).flatMap (fun b =>
    List.replicate (walk m b).length (bucketKey b, (docCount b).toUInt64)) = met at hcounted
  -- counting in 64 bits is exact counting up to wrapping around
  have hdocs (p : String → Bool) : Tally.docsOf p met = weigh p := by
    rw [← hmet, Response.docsOf_flatMap]
  have hpending : e.tally.pending = [] := congrArg Tally.pending hempty
  obtain ⟨f, hf⟩ := Tally.ranked_freeze hpending met none e.limit
  have hvalue : (d.counted (walk (d.start + 1 + m) root)).kind = .value
      { e with tally := (e.tally.addAll met).freeze none e.limit } := by
    rw [hcounted, hkind, ← hsort]
    rfl
  have hpartitions : domain.partitions
      = ((e.tally.addAll met).freeze none e.limit).partitions := by
    show (d.counted (walk (d.start + 1 + m) root)).kind.partitions = _
    rw [hvalue, EdgeKind.partitions_value]
  refine ⟨⟨?_, ?_⟩, ?_⟩
  · rw [hpartitions]
    refine hf.descending.imp fun hle => ?_
    rwa [hdocs, hdocs] at hle
  · intro b _ hbeyond v hv
    rw [hpartitions] at hbeyond hv
    have hle := hf.beyond_le hbeyond hv
    rwa [hdocs, hdocs] at hle
  · rintro rfl
    have hoverflow := hf.overflow_eq
    rw [hdocs, ← hpartitions] at hoverflow
    rw [← hoverflow]
    show (d.counted (walk (d.start + 1 + m) root)).kind.overflow.getD 0 = _
    rw [hvalue]
    show (Tally.overflow _ e.policy).getD 0 = _
    have hother : e.policy = .other := hpolicy
    rw [hother]

namespace Grouping

/-- **Discovered partitions are ranked by rows, not by documents.** Without a direction to sort by,
an edge ranks its values by what their buckets on its level hold, each bucket counted as often as
there are rows below it, and reports as overflow what the buckets of the other values hold, counted
alike. All of this is counted in 64 bits, and exact when the buckets fit together. Then, where the
buckets with documents have the same number of rows below them, the values are ranked by documents
and the overflow is that many times too large; below a bucket of the innermost level there is one
row. -/
theorem partitions_ranked {catalog : Catalog} {options : Options} {q : Query} {plan : GroupingPlan}
    (h : compile catalog options q = .ok plan) {d : Decoder} (hd : d ∈ plan.decoders)
    {e : ValueEdge} (hkind : d.kind = .value e) (hsort : e.sort = none) (response : Json) :
    let root := Response.root response
    let counted := d.counted (walk (levels plan.decoders) root)
    let domain := counted.outputDomain
    let buckets := matchedBuckets d.start root
    let below (b : Json) : Nat := (walk (levels plan.decoders - (d.start + 1)) b).length
    let counts (p : String → Bool) : Nat := weight (fun b => below b * docCount b) p buckets
    let documents (p : String → Bool) : Nat := weight docCount p buckets
    let beyond (key : String) : Bool := key ∉ domain.partitions.map valueKey
    (∃ all, countAll root plan.decoders = .ok all ∧ counted ∈ all)
      ∧ domain.Ranks (fun p => (counts p).toUInt64) buckets
      ∧ (options.overflow = .other → domain.overflow.getD 0 = (counts beyond).toUInt64)
      ∧ (counts (fun _ => true) < 2 ^ 64 →
        domain.Ranks counts buckets
          ∧ (options.overflow = .other → (domain.overflow.getD 0).toNat = counts beyond)
          ∧ ∀ k, 0 < k → (∀ b ∈ buckets, docCount b = 0 ∨ below b = k) →
            domain.Ranks documents buckets
              ∧ (options.overflow = .other →
                (domain.overflow.getD 0).toNat = k * documents beyond))
      ∧ (levels plan.decoders = d.start + 1 → ∀ b, below b = 1) := by
  intro root counted domain buckets below counts documents beyond
  obtain ⟨pieces, tree, hp, -, rfl⟩ := compile_eq_ok h
  have hfresh : d.kind.Fresh options.overflow := Pieces.fresh_decoders hp d hd
  -- the decoder owns one level, and the others are below it
  have hlevels : levels pieces.decoders
      = d.start + 1 + (levels pieces.decoders - (d.start + 1)) := by
    have hwithin : d.start + d.levels ≤ levels pieces.decoders := (within_levels _).of_mem hd
    have hone : d.levels = 1 := by rw [Decoder.levels, hkind]; rfl
    omega
  obtain ⟨hranks, hoverflow⟩ := Decoder.ranks_counted hkind hsort hfresh
    (levels pieces.decoders - (d.start + 1)) root
  rw [← hlevels] at hranks hoverflow
  refine ⟨⟨_, countAll_eq root _, List.mem_map_of_mem hd⟩, hranks, hoverflow, ?_, ?_⟩
  · intro hfit
    have hexact : domain.Ranks counts buckets := OutputDomain.Ranks.exact hfit hranks
    have hbeyond (hother : options.overflow = .other) :
        (domain.overflow.getD 0).toNat = counts beyond := by
      have heq : domain.overflow.getD 0 = (counts beyond).toUInt64 := hoverflow hother
      rw [heq]
      exact Response.toNat_weight hfit beyond
    refine ⟨hexact, hbeyond, fun k hk hbelow => ?_⟩
    -- a bucket is counted once for each row below it
    have hweigh : ∀ b ∈ buckets, below b * docCount b = k * docCount b := by
      intro b hb
      rcases hbelow b hb with hzero | hrows
      · rw [hzero, Nat.mul_zero, Nat.mul_zero]
      · rw [hrows]
    refine ⟨hexact.of_mul hk hweigh, fun hother => ?_⟩
    rw [hbeyond hother]
    exact Response.weight_mul hweigh beyond
  · intro hinner b
    show (walk (levels pieces.decoders - (d.start + 1)) b).length = 1
    rw [hinner, Nat.sub_self]
    rfl

/-! ## Two edges -/

def crossedCatalog : Catalog where
  table := "t"
  columns :=
    [{ name := "a", stored := "a", mapping := "keyword", type := .string, nestedPath := ["."] },
      { name := "b", stored := "b", mapping := "keyword", type := .string, nestedPath := ["."] }]
  queryPath := ["."]

/-- Options that fold the values beyond the limit into the missing ones. -/
def foldingOptions : Options := { Options.default with overflow := .other }

/-- A cube by the two most frequent values of each field. -/
def crossedQuery : Query where
  table := "t"
  selects := [.count]
  shape := .list
  edges := [.ofField "a", .ofField "b"]
  groupby := []
  condition := .literal (.bool true)
  sort := []
  limit := some 2
  format := .cube
  save := false
  written := none

def crossedDecoder (name : String) (place : Nat) : Decoder where
  name
  edgeIndex := place
  depth := Path.root
  start := place
  allowNulls := true
  kind := .value
    { source := .column name, missing := .missing name, sort := none, limit := 2,
      policy := .other, tally := .empty }

def crossedInner : Aggs :=
  [("_match", .node (.terms (.column "b") (some 2) none none) []),
    ("_missing", .node (.missing "b") [])]

/-- The plan of the query: its second field stands inside of its first one. -/
def crossedGrouping : GroupingPlan where
  tree :=
    [("_match", .node (.terms (.column "a") (some 2) none none) crossedInner),
      ("_missing", .node (.missing "a") crossedInner)]
  keyOrder := .key
  decoders := [crossedDecoder "a" 0, crossedDecoder "b" 1]
  selects := [{ select := .count, pull := .path ["doc_count"] }]

theorem compile_crossed :
    compile crossedCatalog foldingOptions crossedQuery = .ok crossedGrouping := by
  cbv

/-- A bucket of documents by their values of the second field, none of which is missing. -/
def crossedBucket (value : String) (docs : Nat) (values : List (String × Nat)) : Json :=
  .obj [("key", .str value), ("doc_count", .nat docs),
    ("_match", .obj [("buckets", .arr (values.map fun v =>
      .obj [("key", .str v.1), ("doc_count", .nat v.2)]))]),
    ("_missing", .obj [("doc_count", .nat 0)])]

/-- A response in which the most frequent value of the first field goes with one value of the
second, and the next one with two. -/
def crossedRoot : Json :=
  .obj [("_match", .obj [("buckets", .arr [crossedBucket "x" 5 [("p", 5)],
      crossedBucket "y" 4 [("p", 2), ("q", 2)], crossedBucket "z" 1 [("p", 1)]])]),
    ("_missing", crossedBucket "" 0 [])]

theorem mirrors_crossedBucket (value : String) (docs : Nat) (values : List (String × Nat)) :
    crossedInner.Mirrors (crossedBucket value docs values) := by
  have hvalues : ∀ item ∈ values.map fun v =>
      Json.obj [("key", .str v.1), ("doc_count", .nat v.2)], Aggs.Mirrors [] item := by
    intro item hitem
    obtain ⟨v, -, rfl⟩ := List.mem_map.mp hitem
    exact ⟨_, rfl, framed_of_names ["key", "doc_count"] _ rfl (by decide) (by decide), trivial⟩
  have hmissing : Aggs.Mirrors [] (.obj [("doc_count", .nat 0)]) :=
    ⟨_, rfl, ⟨by decide, by decide⟩, trivial⟩
  refine ⟨_, rfl, framed_of_names ["key", "doc_count", "_match", "_missing"] _ rfl (by decide)
    (by decide), ⟨_, rfl, Or.inr ((Agg.answered_several rfl).mpr ⟨_, _, rfl, ?_, rfl, hvalues⟩)⟩,
    ⟨_, rfl, Or.inr ((Agg.answered_single rfl).mpr hmissing)⟩, trivial⟩
  exact framed_of_names ["buckets"] _ rfl (by decide) (by decide)

theorem mirrors_crossed : crossedGrouping.tree.Mirrors crossedRoot := by
  have hbuckets : ∀ item ∈ [crossedBucket "x" 5 [("p", 5)],
      crossedBucket "y" 4 [("p", 2), ("q", 2)], crossedBucket "z" 1 [("p", 1)]],
      crossedInner.Mirrors item := by
    simp [mirrors_crossedBucket]
  exact ⟨_, rfl, ⟨by decide, by decide⟩,
    ⟨_, rfl, Or.inr ((Agg.answered_several rfl).mpr
      ⟨_, _, rfl, ⟨by decide, by decide⟩, rfl, hbuckets⟩)⟩,
    ⟨_, rfl, Or.inr ((Agg.answered_single rfl).mpr (mirrors_crossedBucket "" 0 []))⟩, trivial⟩

def crossedResponse : Json := .obj [("aggregations", crossedRoot)]

def crossedDomain (name : String) (place : Nat) : OutputDomain :=
  ((crossedDecoder name place).counted
    (walk (levels crossedGrouping.decoders) (Response.root crossedResponse))).outputDomain

theorem crossedDomain_eq : (crossedDomain "a" 0).partitions = [.str "y", .str "x"]
    ∧ (crossedDomain "a" 0).overflow = some 2 :=
  ⟨by cbv, by cbv⟩

/-- The first field is ranked by rows: its values are met twelve times, ten times and twice. The
second field, on the innermost level, is ranked by documents. -/
theorem partitions_ranked_crossed :
    let outer (b : Json) : Nat :=
      (walk (levels crossedGrouping.decoders - (0 + 1)) b).length * docCount b
    let buckets (level : Nat) := matchedBuckets level (Response.root crossedResponse)
    (crossedDomain "a" 0).Ranks (weight outer · (buckets 0)) (buckets 0)
      ∧ (buckets 0).map outer = [10, 12, 2]
      ∧ (crossedDomain "b" 1).Ranks (weight docCount · (buckets 1)) (buckets 1) := by
  intro outer buckets
  obtain ⟨-, -, -, houter, -⟩ := partitions_ranked compile_crossed
    (d := crossedDecoder "a" 0) (by simp [crossedGrouping]) rfl rfl crossedResponse
  obtain ⟨-, -, -, hinner, hone⟩ := partitions_ranked compile_crossed
    (d := crossedDecoder "b" 1) (by simp [crossedGrouping]) rfl rfl crossedResponse
  have hranks := (hinner (by decide)).2.2 1 Nat.one_pos fun b _ => Or.inr (hone rfl b)
  exact ⟨(houter (by decide)).1, rfl, hranks.1⟩

/-- **The most frequent value need not come first.** Of the first field, `x` has five documents on
its level and `y` has four, but `y` comes first, for it has one row more below it. The one document
of `z`, which is beyond the limit, is counted twice. -/
theorem partitions_not_ranked :
    compile crossedCatalog foldingOptions crossedQuery = .ok crossedGrouping
      ∧ crossedGrouping.tree.Mirrors (Response.root crossedResponse)
      ∧ crossedDecoder "a" 0 ∈ crossedGrouping.decoders
      ∧ (∃ e, (crossedDecoder "a" 0).kind = .value e ∧ e.sort = none)
      ∧ foldingOptions.overflow = .other
      ∧ let buckets := matchedBuckets 0 (Response.root crossedResponse)
        (crossedDomain "a" 0).partitions = [.str "y", .str "x"]
          ∧ weight docCount (· = valueKey (.str "y")) buckets = 4
          ∧ weight docCount (· = valueKey (.str "x")) buckets = 5
          ∧ (crossedDomain "a" 0).overflow = some 2
          ∧ weight docCount (· ∉ (crossedDomain "a" 0).partitions.map valueKey) buckets = 1 := by
  refine ⟨compile_crossed, mirrors_crossed, by simp [crossedGrouping], ⟨_, rfl, rfl⟩, rfl,
    crossedDomain_eq.1, rfl, rfl, crossedDomain_eq.2, ?_⟩
  rw [crossedDomain_eq.1]
  rfl

end Grouping

end Tabula
