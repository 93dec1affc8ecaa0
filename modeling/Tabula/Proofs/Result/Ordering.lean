import Mathlib
import Tabula.Proofs.Grouping.Placing
import Tabula.Proofs.Grouping.Sorting
import Tabula.Proofs.Result.Agreement
import Tabula.Proofs.Run.Decoding

/-!
# The order of results

The groups of a result come in the order of their coordinates. A component is the index of a
partition, and the partitions of a sorted edge are in the order of their values, with the place for
missing values behind them (`precedes_of_lt`). So the groups are in the order of the values of the
edges that are sorted by, whatever their number and directions (`groups_ordered`).
-/

set_option autoImplicit false

namespace Tabula

open Response (walk)

/-! ## Partitions in order -/

namespace Tally

/-- **The partitions of a sorted domain are in its order**: an earlier one comes before a later
one, and every one before the place for missing values. -/
theorem Settled.precedes_of_lt {met : List Json} {dir : Direction} {t : Tally} {f : Frozen}
    (h : Settled met (some dir) t f) (hs : ∀ v ∈ met, v.isScalar = true) {i j : Nat} (hij : i < j)
    (hj : j ≤ t.size) :
    Grouping.Precedes dir ((t.value? i).getD .null) ((t.value? j).getD .null) := by
  rw [h.size_eq] at hj
  have hi : i < f.retained.length := Nat.lt_of_lt_of_le hij hj
  obtain ⟨hvalue, hmem⟩ := h.value?_of_lt hi
  have hscalar := hs _ hmem
  rw [hvalue, Option.getD_some]
  constructor
  · intro hnull
    rw [hnull] at hscalar
    cases hscalar
  · rcases Nat.lt_or_ge j f.retained.length with hlt | hge
    · obtain ⟨hvalue', hmem'⟩ := h.value?_of_lt hlt
      rw [hvalue', Option.getD_some]
      refine Or.inr ?_
      -- two partitions never have values that compare equal, for these would have one key
      have hkey := h.valueKey_ne hij hlt
      have hle := List.pairwise_iff_getElem.mp (List.pairwise_append.mp h.sorted).1 i j hi hlt hij
      cases dir with
      | asc => exact compareValues_eq_lt hscalar hkey hle
      | desc => exact compareValues_eq_lt (hs _ hmem') (Ne.symm hkey) hle
    · refine Or.inl ?_
      rw [h.value?_eq, List.getElem?_eq_none hge]
      rfl

end Tally

namespace Grouping

/-- Whether the partitions of a decoder are those of a key: of its edge, and in its direction. -/
def InOrder (d : Decoder) (key : Nat × Direction) : Prop :=
  d.edgeIndex = key.1 ∧ ∀ i j, i < j → j < d.size → Precedes key.2 (d.value i) (d.value j)

/-- **A coordinate that comes before another has the values that come before**, by any keys whose
decoders come first. -/
theorem ordered_of_compareCoord {values values' : Nat → Json} {keys : List (Nat × Direction)}
    {ds : List Decoder} (hkeys : List.Forall₂ InOrder (ds.take keys.length) keys)
    {coord coord' : List Nat}
    (h : List.Forall₂ (fun d i => i < d.size ∧ values d.edgeIndex = d.value i) ds coord)
    (h' : List.Forall₂ (fun d i => i < d.size ∧ values' d.edgeIndex = d.value i) ds coord')
    (hle : (compareCoord coord coord').isLE) : Ordered values values' keys := by
  induction keys generalizing ds coord coord' with
  | nil => trivial
  | cons key keys ih =>
      cases ds with
      | nil => cases hkeys
      | cons d ds =>
          obtain ⟨hkey, hkeys⟩ := List.forall₂_cons.mp hkeys
          cases h with
          | @cons _ i _ coord hi h =>
          cases h' with
          | @cons _ j _ coord' hj h' =>
          have hvalue : values key.1 = d.value i := by rw [← hkey.1, hi.2]
          have hvalue' : values' key.1 = d.value j := by rw [← hkey.1, hj.2]
          -- the first component that differs decides, and can not be the greater one
          rcases Nat.lt_trichotomy i j with hij | rfl | hji
          · refine Or.inl ?_
            rw [hvalue, hvalue']
            exact hkey.2 i j hij hj.1
          · refine Or.inr ⟨hvalue.trans hvalue'.symm, ih hkeys h h' ?_⟩
            have hself : compare i i = .eq := Std.ReflCmp.compare_self
            rwa [compareCoord, hself] at hle
          · have hgt : compare i j = .gt := Nat.compare_eq_gt.mpr hji
            rw [compareCoord, hgt] at hle
            cases hle

/-! ## The values of edges -/

/-- The value of the edge at a place of the query, in the row of a coordinate. -/
def edgeValue (p : GroupingPlan) (coord : List Nat) (i : Nat) : Json :=
  (((edgeValues p coord)[i]?).map (·.2)).getD .null

section Written

variable {p : GroupingPlan}

theorem map_writtenOrder (h : OneEach p.decoders) :
    (writtenOrder p).map (fun i => ((p.decoders[i]?).map (·.edgeIndex)).getD 0)
      = List.range p.decoders.length := by
  have hrange : (List.range p.decoders.length).map
      (fun i => ((p.decoders[i]?).map (·.edgeIndex)).getD 0) = p.decoders.map (·.edgeIndex) := by
    refine List.ext_getElem (by simp) fun i h1 h2 => ?_
    have hlt : i < p.decoders.length := by simpa using h1
    simp [List.getElem?_eq_getElem hlt]
  have hperm : ((writtenOrder p).map fun i => ((p.decoders[i]?).map (·.edgeIndex)).getD 0).Perm
      (List.range p.decoders.length) :=
    ((List.mergeSort_perm _ _).map _).trans (hrange ▸ h)
  refine hperm.eq_of_pairwise (fun a b _ _ => Nat.le_antisymm) ?_ List.pairwise_le_range
  rw [List.pairwise_map]
  refine (List.pairwise_mergeSort ?_ ?_ _).imp fun hle => of_decide_eq_true hle
  · intro i j k hij hjk
    exact decide_eq_true (Nat.le_trans (of_decide_eq_true hij) (of_decide_eq_true hjk))
  · intro i j
    rw [Bool.or_eq_true, decide_eq_true_eq, decide_eq_true_eq]
    exact Nat.le_total _ _

/-- The decoder of an edge stands at the edge's place in written order. -/
theorem getElem?_writtenOrder (h : OneEach p.decoders) {k : Nat} {d : Decoder}
    (hd : p.decoders[k]? = some d) : (writtenOrder p)[d.edgeIndex]? = some k := by
  obtain ⟨hk, rfl⟩ := List.getElem?_eq_some_iff.mp hd
  have hlt : (p.decoders[k]).edgeIndex < p.decoders.length :=
    List.mem_range.mp (h.mem_iff.mp (List.mem_map_of_mem (List.getElem_mem hk)))
  have hget := congrArg (fun xs : List Nat => xs[(p.decoders[k]).edgeIndex]?) (map_writtenOrder h)
  simp only [List.getElem?_map, List.getElem?_range hlt] at hget
  obtain ⟨j, hj, hindex⟩ := Option.map_eq_some_iff.mp hget
  have hmem : j ∈ List.range p.decoders.length :=
    (List.mergeSort_perm _ _).mem_iff.mp (List.mem_of_getElem? hj)
  have hjlt : j < p.decoders.length := List.mem_range.mp hmem
  rw [List.getElem?_eq_getElem hjlt, Option.map_some, Option.getD_some] at hindex
  -- no other decoder has the same place
  have hnodup : (p.decoders.map (·.edgeIndex)).Nodup := h.nodup_iff.mpr List.nodup_range
  have hsame : (p.decoders.map (·.edgeIndex))[j]? = (p.decoders.map (·.edgeIndex))[k]? := by
    rw [List.getElem?_map, List.getElem?_map, List.getElem?_eq_getElem hjlt,
      List.getElem?_eq_getElem hk, Option.map_some, Option.map_some, hindex]
  have hjk : j = k := (List.getElem?_inj (by rwa [List.length_map]) hnodup).mp hsame
  rw [hj, hjk]

theorem edgeValues_eq (p : GroupingPlan) (coord : List Nat) :
    edgeValues p coord = (writtenOrder p).map fun i =>
      ((p.decoders[i]?).map fun d => (d.name, d.value ((coord[i]?).getD 0))).getD default := by
  refine List.filterMap_eq_map_iff_forall_eq_some.mpr fun i hi => ?_
  have hlt : i < p.decoders.length := List.mem_range.mp ((List.mergeSort_perm _ _).mem_iff.mp hi)
  rw [List.getElem?_eq_getElem hlt]
  rfl

/-- **The value of an edge in a row** is that of its decoder at its own component. -/
theorem getElem?_edgeValues (h : OneEach p.decoders) {k : Nat} {d : Decoder}
    (hd : p.decoders[k]? = some d) (coord : List Nat) :
    (edgeValues p coord)[d.edgeIndex]? = some (d.name, d.value ((coord[k]?).getD 0)) := by
  rw [edgeValues_eq, List.getElem?_map, getElem?_writtenOrder h hd, Option.map_some, hd]
  rfl

/-- The names of the values are those of the edges, in the order in which these were written. -/
theorem names_edgeValues (h : OneEach p.decoders) {edges : List Edge}
    (hlength : p.decoders.length = edges.length)
    (hnames : ∀ d ∈ p.decoders, ∃ e, edges[d.edgeIndex]? = some e ∧ d.name = e.name)
    (coord : List Nat) : (edgeValues p coord).map (·.1) = edges.map (·.name) := by
  have hlen : (edgeValues p coord).length = edges.length := by
    rw [edgeValues_eq, List.length_map, writtenOrder, (List.mergeSort_perm _ _).length_eq,
      List.length_range, hlength]
  refine List.ext_getElem? fun i => ?_
  rw [List.getElem?_map, List.getElem?_map]
  rcases Nat.lt_or_ge i edges.length with hi | hi
  · -- the place is that of some decoder, which knows its name
    have hmem : i ∈ p.decoders.map (·.edgeIndex) := by
      rw [h.mem_iff, List.mem_range, hlength]
      exact hi
    obtain ⟨d, hd, rfl⟩ := List.mem_map.mp hmem
    obtain ⟨e, he, hname⟩ := hnames d hd
    obtain ⟨k, hk⟩ := List.getElem?_of_mem hd
    rw [getElem?_edgeValues h hk, he, Option.map_some, Option.map_some, hname]
  · rw [List.getElem?_eq_none (hlen ▸ hi), List.getElem?_eq_none hi]
    rfl

theorem edgeValue_eq (h : OneEach p.decoders) {k : Nat} {d : Decoder}
    (hd : p.decoders[k]? = some d) (coord : List Nat) :
    edgeValue p coord d.edgeIndex = d.value ((coord[k]?).getD 0) := by
  rw [edgeValue, getElem?_edgeValues h hd]
  rfl

/-- A coordinate inside of the cube has the values that its row shows. -/
theorem forall₂_edgeValue (h : OneEach p.decoders) {coord : List Nat}
    (hc : Matrix.inside (dims p) coord = true) :
    List.Forall₂ (fun d i => i < d.size ∧ edgeValue p coord d.edgeIndex = d.value i) p.decoders
      coord := by
  have hinside : List.Forall₂ (fun (d : Decoder) i => i < d.size) p.decoders coord :=
    List.forall₂_map_left_iff.mp (Matrix.inside_iff.mp hc)
  refine List.forall₂_iff_get.mpr ⟨hinside.length_eq, fun k hk hk' => ⟨hinside.get hk hk', ?_⟩⟩
  have hd : p.decoders[k]? = some (p.decoders.get ⟨k, hk⟩) := List.getElem?_eq_getElem hk
  rw [edgeValue_eq h hd, List.getElem?_eq_getElem hk', Option.getD_some]
  rfl

/-- The groups of rows inside of the cube are in the order of the keys of its first decoders. -/
theorem groups_pairwise_ordered (h : OneEach p.decoders) {rows : List Row}
    (hrows : ∀ row ∈ rows, Matrix.inside (dims p) row.coord = true)
    {keys : List (Nat × Direction)}
    (hkeys : List.Forall₂ InOrder (p.decoders.take keys.length) keys) :
    (groups p rows).Pairwise fun g g' =>
      Ordered (edgeValue p g.coord) (edgeValue p g'.coord) keys := by
  have hinside {g : Group} (hg : g ∈ groups p rows) : Matrix.inside (dims p) g.coord = true := by
    obtain ⟨row, hrow, heq⟩ := coord_of_mem_groups hg
    rw [heq]
    exact hrows row hrow
  refine (groups_ascending p rows).imp_of_mem fun hg hg' hlt => ?_
  refine ordered_of_compareCoord hkeys (forall₂_edgeValue h (hinside hg))
    (forall₂_edgeValue h (hinside hg')) ?_
  rw [hlt]
  rfl

end Written

/-! ## Sorted edges -/

/-- The values that rows add to a discovered domain are the keys of their buckets. -/
theorem isScalar_of_met {e : ValueEdge} {rows : List (List Part)}
    (hs : ∀ own ∈ rows, ∀ n bucket, Part.matched n bucket ∈ own →
      (Response.bucketKey bucket).isScalar = true) :
    ∀ v ∈ (rows.filterMap (EdgeKind.value e).met?).map (·.1), v.isScalar = true := by
  intro v hv
  obtain ⟨m, hm, rfl⟩ := List.mem_map.mp hv
  obtain ⟨own, hown, hm⟩ := List.mem_filterMap.mp hm
  cases own with
  | nil => cases hm
  | cons part rest =>
      cases part with
      | matched n bucket =>
          cases hm
          exact hs _ hown n bucket List.mem_cons_self
      | missing bucket => cases hm
      | other => cases hm
      | join k bucket => cases hm

/-- The partitions of a counted decoder are in the direction of its edge, when the buckets of the
response stand for scalars. -/
theorem precedes_counted {d : Decoder} {e : ValueEdge} (hkind : d.kind = .value e)
    {dir : Direction} (hsort : e.sort = some dir) {policy : Overflow}
    (hfresh : d.kind.Fresh policy) {rows : List PathRow}
    (hs : ∀ row ∈ rows, ∀ n bucket, Part.matched n bucket ∈ row.parts →
      (Response.bucketKey bucket).isScalar = true) {i j : Nat} (hij : i < j)
    (hj : j < (d.counted rows).size) :
    Precedes dir ((d.counted rows).value i) ((d.counted rows).value j) := by
  have hscalar : ∀ v ∈ ((rows.map fun row => d.own row.parts).filterMap d.kind.met?).map (·.1),
      v.isScalar = true := by
    rw [hkind]
    refine isScalar_of_met ?_
    intro own hown n bucket hmem
    obtain ⟨row, hrow, rfl⟩ := List.mem_map.mp hown
    exact hs row hrow n bucket (List.mem_of_mem_drop (List.mem_of_mem_take hmem))
  have hcounted := Decoder.kind_counted rows d
  generalize (rows.map fun row => d.own row.parts).filterMap d.kind.met? = met at hscalar hcounted
  obtain ⟨f, hf⟩ := EdgeKind.settled_settle hfresh met
    { sort := e.sort, limit := e.limit, policy := e.policy
      tally := (e.tally.addAll met).freeze e.sort e.limit } (by rw [hkind]; rfl)
  have hf : Tally.Settled (met.map (·.1)) (some dir)
      ((e.tally.addAll met).freeze e.sort e.limit) f := hsort ▸ hf
  -- the decoder shows the values of the tally that was settled
  have hkind : (d.counted rows).kind = .value
      { e with tally := (e.tally.addAll met).freeze e.sort e.limit } := by
    rw [hcounted, hkind]
    rfl
  have hvalue (k : Nat) : (d.counted rows).value k
      = ((((e.tally.addAll met).freeze e.sort e.limit).value? k).getD .null) := by
    rw [Decoder.value, hkind]
    rfl
  have hsize : j ≤ ((e.tally.addAll met).freeze e.sort e.limit).size := by
    rw [Decoder.size, Decoder.partitionCount, hkind] at hj
    simp only [EdgeKind.partitionCount] at hj
    split at hj <;> omega
  rw [hvalue, hvalue]
  exact hf.precedes_of_lt hscalar hij hsize

/-- A discovered edge takes the direction of the sort term that names it. -/
theorem sort_of_sortedBy {catalog : Catalog} {options : Options} {edges : List Edge}
    {placed : PlacedEdge} {key : Nat × Direction} (hp : SortedBy edges placed key) {d : Decoder}
    (hd : DecoderOf catalog options placed d) {e : ValueEdge} (hkind : d.kind = .value e) :
    e.sort = some key.2 := by
  obtain ⟨-, original, -, hedge⟩ := hp
  obtain ⟨-, -, limit, hmade⟩ := hd
  rw [hkind] at hmade
  cases EdgeKind.made_of_kind hmade with
  | value hdomain hvalue =>
      obtain ⟨source, -, hvalue⟩ := Results.bind_eq_ok.mp hvalue
      obtain ⟨missing, -, hvalue⟩ := Results.bind_eq_ok.mp hvalue
      cases hvalue
      rw [hedge] at hdomain
      exact sort_of_facing hdomain

/-- A decoder that a sort term names has its partitions in order, when the term names a discovered
edge and the buckets of the response stand for scalars. -/
theorem inOrder_counted {catalog : Catalog} {options : Options} {q : Query} {d : Decoder}
    {key : Nat × Direction} (hd : SortsBy catalog options q d key)
    (hsort : ∀ term ∈ q.sort, q.grouping.findIdx? (names term) = some d.edgeIndex →
      ∃ e, d.kind = .value e)
    {policy : Overflow} (hfresh : d.kind.Fresh policy) {rows : List PathRow}
    (hs : ∀ row ∈ rows, ∀ n bucket, Part.matched n bucket ∈ row.parts →
      (Response.bucketKey bucket).isScalar = true) : InOrder (d.counted rows) key := by
  obtain ⟨⟨term, hterm, hfind⟩, placed, hplaced, hof⟩ := hd
  have hindex : d.edgeIndex = key.1 := hof.1.trans hplaced.1
  obtain ⟨e, he⟩ := hsort term hterm (hindex ▸ hfind)
  exact ⟨hindex, fun i j => precedes_counted he (sort_of_sortedBy hplaced hof he) hfresh hs⟩

theorem oneEach_counted {ds : List Decoder} (h : OneEach ds) (rows : List PathRow) :
    OneEach (ds.map (Decoder.counted rows)) := by
  rw [OneEach, List.map_map, List.length_map]
  exact h

/-! ## Results in order -/

/-- **Results come in the order of the sort terms.** A groupby shows its groups as a list or as a
table. The values of its edges stand in the order in which the query wrote them, and the groups in
the order of the values of the sorted edges: where two groups differ first, the earlier one has the
value that comes first in the direction of that term, or has a value and the later one has none. -/
theorem groups_ordered {catalog : Catalog} {options : Options} {q : Query} {plan : GroupingPlan}
    (h : compile catalog options q = .ok plan) (hgroupby : q.isGroupby = true)
    (hformat : q.format ≠ .cube)
    (hsort : ∀ term ∈ q.sort, ∀ d ∈ plan.decoders,
      q.grouping.findIdx? (names term) = some d.edgeIndex → ∃ e, d.kind = .value e)
    (response : Json)
    (hscalar : ∀ row ∈ walk (levels plan.decoders) (Response.root response), ∀ n bucket,
      Part.matched n bucket ∈ row.parts → (Response.bucketKey bucket).isScalar = true) :
    ∃ counted rows, countAll (Response.root response) plan.decoders = .ok counted
      ∧ Grouping.rows (Response.root response) counted = .ok rows
      ∧ let p : GroupingPlan := { plan with decoders := counted }
        (Compiled.grouping plan).decode q response
            = .ok (if q.format = .list
              then .list ((groups p rows).map fun g => rowObject p g.coord g.values)
              else .table (header p) ((groups p rows).map fun g => tableRow p g.coord g.values))
          ∧ (∀ coord, (edgeValues p coord).map (·.1) = q.grouping.map (·.name))
          ∧ (groups p rows).Pairwise fun g g' =>
            Ordered (edgeValue p g.coord) (edgeValue p g'.coord) (sortKeys q) := by
  obtain ⟨pieces, tree, hp, -, rfl⟩ := compile_eq_ok h
  obtain ⟨⟨keys, hkeys, hordered⟩, hone, hlength, hnames⟩ := Pieces.sorted_decoders hformat hp
  obtain ⟨hcount, hrows, -, -⟩ := count_and_place (Response.root response) pieces.decoders
  refine ⟨_, _, hcount, hrows, ?_⟩
  intro p
  have hone : OneEach p.decoders :=
    oneEach_counted hone (walk (levels pieces.decoders) (Response.root response))
  refine ⟨?_, ?_, ?_⟩
  · have hnonempty : q.grouping ≠ [] := by
      rw [Query.isGroupby, Bool.and_eq_true, Bool.not_eq_true'] at hgroupby
      rw [Query.grouping, if_pos hgroupby.1]
      exact List.isEmpty_eq_false_iff.mp hgroupby.2
    have hdecoders : p.decoders.isEmpty = false := by
      rw [List.isEmpty_eq_false_iff, ← List.length_pos_iff, List.length_map, hlength,
        List.length_pos_iff]
      exact hnonempty
    rw [Compiled.decode_eq q _ hcount hrows, format, hdecoders]
    simp only [Bool.false_eq_true, if_false, hformat, hgroupby, if_true, Results.ok_bind,
      groupsHeader_groups]
    rfl
  · refine names_edgeValues hone (by rw [List.length_map, hlength]) ?_
    intro d hd
    obtain ⟨e, he, rfl⟩ := List.mem_map.mp hd
    exact hnames e he
  · -- the leading decoders are those of the sort terms
    have hinorder : List.Forall₂ InOrder (p.decoders.take keys.length) keys := by
      rw [← List.map_take, List.forall₂_map_left_iff]
      refine (List.forall₂_and_left _ _ |>.mpr
        ⟨fun d hd => List.mem_of_mem_take hd, hkeys⟩).imp ?_
      rintro d key ⟨hd, hkey⟩
      exact inOrder_counted hkey (fun term hterm => hsort term hterm d hd)
        (Pieces.fresh_decoders hp d hd) hscalar
    exact (groups_pairwise_ordered hone (fun row hrow => inside_of_mem_rows hrow) hinorder).imp
      (hordered _ _)

def orderedCatalog : Catalog where
  table := "t"
  columns :=
    [{ name := "a", stored := "a", mapping := "keyword", type := .string, nestedPath := ["."] },
      { name := "b", stored := "b", mapping := "keyword", type := .string, nestedPath := ["."] }]
  queryPath := ["."]

def orderedSelect : Select where
  name := "count"
  value := .var "."
  aggregate := .count
  percentile := none
  default := .int 0

/-- A table by two fields, sorted by the second one from its end. Its third sort term names that
field again and changes nothing. -/
def orderedQuery : Query where
  table := "t"
  selects := [orderedSelect]
  shape := .list
  edges := []
  groupby := [.ofField "a", .ofField "b"]
  condition := .literal (.bool true)
  sort :=
    [{ value := .var "b", direction := .desc }, { value := .var "a", direction := .asc },
      { value := .var "b", direction := .asc }]
  limit := none
  format := .table
  save := false
  written := none

def orderedDecoder (name : String) (edgeIndex start : Nat) (direction : Direction) : Decoder where
  name
  edgeIndex
  depth := Path.root
  start
  allowNulls := true
  kind := .value
    { source := .column name, missing := .missing name, sort := some direction, limit := 10,
      policy := .drop, tally := .empty }

/-- The plan of the query: its second field stands outside of its first one. -/
def orderedGrouping : GroupingPlan where
  tree :=
    let inner : Aggs :=
      [("_match", .node (.terms (.column "a") (some 10) none (some .asc)) []),
        ("_missing", .node (.missing "a") [])]
    [("_match", .node (.terms (.column "b") (some 10) none (some .desc)) inner),
      ("_missing", .node (.missing "b") inner)]
  keyOrder := .key
  decoders := [orderedDecoder "b" 1 0 .desc, orderedDecoder "a" 0 1 .asc]
  selects := [{ select := orderedSelect, pull := .path ["doc_count"] }]

theorem compile_ordered : compile orderedCatalog .default orderedQuery = .ok orderedGrouping := by
  cbv

def innerBucket (value : String) (docs : Nat) : Json :=
  .obj [("key", .str value), ("doc_count", .nat docs)]

/-- Documents by their values of the first field, and those without one. -/
def innerBuckets (values : List (String × Nat)) (missing : Nat) : Fields :=
  [("_match", .obj [("buckets", .arr (values.map fun v => innerBucket v.1 v.2))]),
    ("_missing", .obj [("doc_count", .nat missing)])]

/-- A response that has its buckets in another order. -/
def orderedResponse : Json :=
  .obj [("aggregations", .obj
    [("_match", .obj [("buckets", .arr
        [.obj (("key", .str "x") :: innerBuckets [("p", 2), ("q", 1)] 1),
          .obj (("key", .str "y") :: innerBuckets [("q", 2)] 0)])]),
      ("_missing", .obj (innerBuckets [("p", 1)] 0))])]

/-- Whether the bucket that a step goes into has a scalar for its key. -/
def scalarBucket : Part → Bool
  | .matched _ bucket => (Response.bucketKey bucket).isScalar
  | _ => true

/-- The rows of a table by two fields come in the order of the second field from its end, and
then of the first one. -/
theorem groups_ordered_two :
    (Compiled.grouping orderedGrouping).decode orderedQuery orderedResponse
        = .ok (.table ["a", "b", "count"]
          [[.str "q", .str "y", .nat 2], [.str "p", .str "x", .nat 2], [.str "q", .str "x", .nat 1],
            [.null, .str "x", .nat 1], [.str "p", .null, .nat 1]])
      ∧ ∃ p rows, (Compiled.grouping orderedGrouping).decode orderedQuery orderedResponse
          = .ok (.table (header p) ((groups p rows).map fun g => tableRow p g.coord g.values))
        ∧ (groups p rows).Pairwise fun g g' =>
          Ordered (edgeValue p g.coord) (edgeValue p g'.coord)
            [(1, .desc), (0, .asc), (1, .asc)] := by
  refine ⟨by cbv, ?_⟩
  have hsort : ∀ term ∈ orderedQuery.sort, ∀ d ∈ orderedGrouping.decoders,
      orderedQuery.grouping.findIdx? (names term) = some d.edgeIndex → ∃ e, d.kind = .value e := by
    intro _ _ d hd _
    rcases List.mem_pair.mp hd with rfl | rfl <;> exact ⟨_, rfl⟩
  have hkeys : ((walk (levels orderedGrouping.decoders) (Response.root orderedResponse)).all
      fun row => row.parts.all scalarBucket) = true := by cbv
  obtain ⟨counted, rows, -, -, hdecode, -, hordered⟩ :=
    groups_ordered compile_ordered rfl (by decide) hsort orderedResponse
      fun row hrow n bucket hpart =>
        List.all_eq_true.mp (List.all_eq_true.mp hkeys row hrow) (.matched n bucket) hpart
  have hsorted : sortKeys orderedQuery = [(1, .desc), (0, .asc), (1, .asc)] := by cbv
  rw [hsorted] at hordered
  exact ⟨_, rows, hdecode, hordered⟩

end Grouping

end Tabula
