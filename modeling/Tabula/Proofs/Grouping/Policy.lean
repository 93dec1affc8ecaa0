import Mathlib
import Tabula.Proofs.Grouping.Placing
import Tabula.Proofs.Result.Grouped
import Tabula.Proofs.Result.Groups

/-!
# The policy on overflow

What becomes of rows beyond a limit is told by a policy. Compiling under another policy changes the
policy of the decoders and nothing else (`compile_policy`), counting does not look at it
(`counted_withPolicy`), and a row that has its place among the partitions of every edge has the
same place under every policy (`places?_withPolicy`). So two policies agree on the request, on all
partitions, and on every cell of which no component is that of missing values (`same_cells`).
-/

set_option autoImplicit false

namespace Tabula

/-! ## Another policy -/

namespace EdgeKind

variable (policy : Overflow)

def withPolicy : EdgeKind → EdgeKind
  | value e => value { e with policy }
  | tuple e => tuple { e with policy }
  | kind => kind

variable (kind : EdgeKind)

theorem levels_withPolicy : (kind.withPolicy policy).levels = kind.levels := by cases kind <;> rfl

theorem encode_withPolicy (inner : Aggs) :
    (kind.withPolicy policy).encode inner = kind.encode inner := by cases kind <;> rfl

theorem partitionCount_withPolicy :
    (kind.withPolicy policy).partitionCount = kind.partitionCount := by cases kind <;> rfl

theorem partitions_withPolicy : (kind.withPolicy policy).partitions = kind.partitions := by
  cases kind <;> rfl

theorem count_withPolicy (own : List Part) :
    (kind.withPolicy policy).count own = (kind.count own).withPolicy policy := by
  cases kind with
  | value e =>
      cases own with
      | nil => rfl
      | cons part own => cases part <;> rfl
  | tuple e =>
      rw [count_tuple]
      show (tuple { e with policy }).count own = tuple { e.count own with policy }
      rw [count_tuple, TupleEdge.count, TupleEdge.count]
      cases TupleEdge.tuple? own <;> rfl
  | set e => cases own <;> rfl
  | range e => cases own <;> rfl
  | span e => cases own <;> rfl

theorem doneCount_withPolicy :
    (kind.withPolicy policy).doneCount = kind.doneCount.withPolicy policy := by
  cases kind <;> rfl

end EdgeKind

theorem Tally.slot_partition_policy {t : Tally} {key : String} {i : Nat}
    (policy policy' : Overflow) :
    t.slot key policy = .partition i ↔ t.slot key policy' = .partition i := by
  unfold Tally.slot
  cases t.frozen with
  | none => simp
  | some f =>
      simp only
      cases f.retained.findIdx? (·.key == key) with
      | some j => rfl
      | none =>
          simp only
          split <;> split <;> simp

/-- **Policies agree on the rows that belong to a partition.** -/
theorem EdgeKind.slot_partition_policy {kind : EdgeKind} {own : List Part} {i : Nat}
    (policy : Overflow) :
    (kind.withPolicy policy).slot own = .partition i ↔ kind.slot own = .partition i := by
  cases kind with
  | value e =>
      cases own with
      | nil => rfl
      | cons part own =>
          cases part with
          | matched n bucket => exact Tally.slot_partition_policy policy e.policy
          | missing bucket => rfl
          | other => rfl
          | join j bucket => rfl
  | tuple e =>
      show (tuple { e with policy }).slot own = .partition i ↔ _
      rw [slot_tuple, slot_tuple, TupleEdge.slot, TupleEdge.slot]
      cases TupleEdge.tuple? own with
      | none => rfl
      | some t => exact Tally.slot_partition_policy policy e.policy
  | set e => rfl
  | range e => rfl
  | span e => rfl

namespace Decoder

variable (policy : Overflow) (d : Decoder)

def withPolicy : Decoder := { d with kind := d.kind.withPolicy policy }

theorem own_withPolicy (parts : List Part) : (d.withPolicy policy).own parts = d.own parts := by
  rw [own, own, levels, withPolicy, EdgeKind.levels_withPolicy]
  rfl

theorem counted_withPolicy (rows : List PathRow) :
    (d.withPolicy policy).counted rows = (d.counted rows).withPolicy policy := by
  have hkind : (rows.foldl (fun kind row => kind.count ((d.withPolicy policy).own row.parts))
      (d.kind.withPolicy policy)) = (rows.foldl (fun kind row => kind.count (d.own row.parts))
        d.kind).withPolicy policy := by
    refine List.foldl_hom (EdgeKind.withPolicy policy) fun kind row => ?_
    rw [own_withPolicy, EdgeKind.count_withPolicy]
  show ({ d with kind := _ } : Decoder) = { d with kind := _ }
  exact congrArg (fun kind : EdgeKind => { d with kind })
    ((congrArg EdgeKind.doneCount hkind).trans (EdgeKind.doneCount_withPolicy _ _))

/-- A place among the partitions is that of a slot. -/
theorem place?_eq_some_iff {d : Decoder} {parts : List Part} {i : Nat} (hi : i < d.partitionCount) :
    d.place? parts = some i ↔ d.kind.slot (d.own parts) = .partition i := by
  unfold place?
  cases d.kind.slot (d.own parts) with
  | partition j => simp
  | null =>
      simp only [reduceCtorEq, iff_false]
      split
      next => exact fun h => absurd (Option.some.inj h) (Nat.ne_of_gt hi)
      next => simp
  | unknown => simp

theorem place?_withPolicy {d : Decoder} {parts : List Part} {i : Nat} (hi : i < d.partitionCount) :
    (d.withPolicy policy).place? parts = some i ↔ d.place? parts = some i := by
  have hi' : i < (d.withPolicy policy).partitionCount := by
    rw [partitionCount, withPolicy, EdgeKind.partitionCount_withPolicy]
    exact hi
  rw [place?_eq_some_iff hi', place?_eq_some_iff hi, own_withPolicy]
  exact EdgeKind.slot_partition_policy policy

end Decoder

namespace Grouping

open Response (walk)

/-! ## Rows -/

/-- Whether no component of a coordinate is that of missing values. -/
def Inner (ds : List Decoder) (coord : List Nat) : Prop :=
  List.Forall₂ (fun d i => i < d.partitionCount) ds coord

/-- **Policies agree on the rows at a coordinate** that names a partition of every edge. -/
theorem places?_withPolicy (policy : Overflow) {ds : List Decoder} {coord : List Nat}
    (hc : Inner ds coord) {parts : List Part} :
    places? parts (ds.map (Decoder.withPolicy policy)) = some coord
      ↔ places? parts ds = some coord := by
  rw [places?_eq_some, places?_eq_some, List.forall₂_map_left_iff]
  induction hc with
  | nil => simp
  | cons hi _ ih =>
      rw [List.forall₂_cons, List.forall₂_cons, Decoder.place?_withPolicy policy hi, ih]

theorem filter_placed?_withPolicy (policy : Overflow) {ds : List Decoder} {coord : List Nat}
    (hc : Inner ds coord) (rows : List PathRow) :
    (rows.filterMap (placed? (ds.map (Decoder.withPolicy policy)))).filter (·.coord = coord)
      = (rows.filterMap (placed? ds)).filter (·.coord = coord) := by
  rw [List.filter_filterMap, List.filter_filterMap]
  refine List.filterMap_congr fun row _ => Option.ext fun r => ?_
  simp only [Option.filter_eq_some_iff, placed?, Option.map_eq_some_iff, decide_eq_true_eq]
  constructor
  · rintro ⟨⟨c, hplace, rfl⟩, rfl⟩
    exact ⟨⟨c, (places?_withPolicy policy hc).mp hplace, rfl⟩, rfl⟩
  · rintro ⟨⟨c, hplace, rfl⟩, rfl⟩
    exact ⟨⟨c, (places?_withPolicy policy hc).mpr hplace, rfl⟩, rfl⟩

/-! ## Plans -/

/-- Steps are assigned in the same way to decoders that own as many. -/
theorem assignStarts_map {f : Decoder → Decoder} (hl : ∀ d, (f d).levels = d.levels)
    (hs : ∀ (d : Decoder) (start : Nat), { f d with start } = f { d with start })
    (order : List Nat) (start : Nat) (ds : List Decoder) :
    assignStarts order start (ds.map f) = (assignStarts order start ds).map f := by
  induction order generalizing start ds with
  | nil => rfl
  | cons i order ih =>
      unfold assignStarts
      rw [List.getElem?_map]
      cases ds[i]? with
      | none => exact ih start ds
      | some d =>
          simp only [Option.map_some]
          rw [hl, hs, ← List.map_set, ih]

theorem outerOrder_map {f : Decoder → Decoder} (hd : ∀ d, (f d).depth = d.depth)
    (ds : List Decoder) : outerOrder (ds.map f) = outerOrder ds := by
  have hplace : placeDepth (ds.map f) = placeDepth ds := by
    funext i
    rw [placeDepth, placeDepth, List.getElem?_map, Option.map_map]
    exact congrArg (fun g => ((ds[i]?).map g).getD Path.root) (funext hd)
  rw [outerOrder_eq, outerOrder_eq, hplace, List.length_map]

/-- The tree depends on what the decoders ask for and where. -/
theorem Assembly.tree_map {f : Decoder → Decoder}
    (hf : ∀ d, (f d).depth = d.depth ∧ (f d).encode = d.encode) (catalog : Catalog)
    (a : Assembly) : Assembly.tree catalog { a with decoders := a.decoders.map f }
      = a.tree catalog := by
  -- depths and encodings are all that the tree takes from the decoders
  have hpaths : ({ a with decoders := a.decoders.map f } : Assembly).paths = a.paths := by
    have hdepths : (a.decoders.map f).map (·.depth) = a.decoders.map (·.depth) := by
      rw [List.map_map]
      exact List.map_congr_left fun d _ => (hf d).1
    simp only [paths, hdepths]
  have hedges (path : String) (tree : Aggs) :
      ({ a with decoders := a.decoders.map f } : Assembly).wrapEdges path tree
        = a.wrapEdges path tree := by
    have hfilter : (a.decoders.map f).filter (·.depth == path)
        = (a.decoders.filter (·.depth == path)).map f := by
      rw [List.filter_map]
      exact congrArg (List.map f) (List.filter_congr fun d _ => by simp [(hf d).1])
    simp only [wrapEdges, hfilter, List.foldr_map, (hf _).2]
  have hwrap (paths : List String) (scope : String) (tree : Aggs) :
      ({ a with decoders := a.decoders.map f } : Assembly).wrapPaths catalog paths scope tree
        = a.wrapPaths catalog paths scope tree := by
    induction paths generalizing scope tree with
    | nil => rfl
    | cons path paths ih =>
        rw [wrapPaths, wrapPaths, hedges]
        exact congrArg (a.wrapCondition catalog path _ >>= ·) (funext fun t => ih path t)
  rw [tree, tree, hpaths, hwrap]

namespace Pieces

variable (policy : Overflow) (p : Pieces)

def withPolicy : Pieces := { p with unplaced := p.unplaced.map (Decoder.withPolicy policy) }

theorem order_withPolicy : (p.withPolicy policy).order = p.order :=
  outerOrder_map (f := Decoder.withPolicy policy) (fun _ => rfl) p.unplaced

theorem decoders_withPolicy :
    (p.withPolicy policy).decoders = p.decoders.map (Decoder.withPolicy policy) := by
  rw [decoders, order_withPolicy]
  exact assignStarts_map (f := Decoder.withPolicy policy)
    (fun d => EdgeKind.levels_withPolicy policy d.kind) (fun _ _ => rfl) _ _ _

theorem assembly_withPolicy (queryDepth : String) :
    (p.withPolicy policy).assembly queryDepth
      = { p.assembly queryDepth with
          decoders := (p.assembly queryDepth).decoders.map (Decoder.withPolicy policy) } := by
  have houter : (p.withPolicy policy).outer = p.outer.map (Decoder.withPolicy policy) := by
    rw [outer, outer, order_withPolicy, decoders_withPolicy, List.map_filterMap]
    simp only [List.getElem?_map]
  rw [assembly, houter]
  rfl

end Pieces

end Grouping

def GroupingPlan.withPolicy (policy : Overflow) (p : GroupingPlan) : GroupingPlan :=
  { p with decoders := p.decoders.map (Decoder.withPolicy policy) }

/-! ## Compiling -/

section Compiling

variable (catalog : Catalog) (options : Options) (policy : Overflow)

theorem ValueEdge.ofValue_policy (value : Expr) (sort : Option Direction) (limit : Nat) :
    ValueEdge.ofValue catalog value sort limit policy
      = (ValueEdge.ofValue catalog value sort limit options.overflow).map ({ · with policy }) := by
  unfold ValueEdge.ofValue
  rw [Results.map_bind]
  refine congrArg (valueSource catalog value >>= ·) (funext fun source => ?_)
  rw [Results.map_bind]
  rfl

theorem TupleEdge.ofDimension_policy (fields : List String) (limit : Nat) :
    TupleEdge.ofDimension catalog fields limit policy
      = (TupleEdge.ofDimension catalog fields limit options.overflow).map ({ · with policy }) := by
  unfold TupleEdge.ofDimension
  rw [Results.map_bind]
  rfl

theorem TupleEdge.ofObject_policy (name : String) (sort : Option Direction) (limit : Nat) :
    TupleEdge.ofObject catalog name sort limit policy
      = (TupleEdge.ofObject catalog name sort limit options.overflow).map ({ · with policy }) := by
  unfold TupleEdge.ofObject
  cases (catalog.leaves name).filter (·.type != .presence) <;> rfl

/-- **Another policy makes another kind of the same edge**, and nothing else. -/
theorem Edge.kind_policy (limit : Nat) (e : Edge) :
    e.kind catalog { options with overflow := policy } limit
      = (e.kind catalog options limit).map (EdgeKind.withPolicy policy) := by
  have made {α : Type} (x : QueryResult α) {make : α → EdgeKind} {change : α → α}
      (h : ∀ a, make (change a) = (make a).withPolicy policy) :
      make <$> x.map change = (make <$> x).map (EdgeKind.withPolicy policy) := by
    cases x with
    | error err => rfl
    | ok a => exact congrArg Except.ok (h a)
  have same {α : Type} (x : QueryResult α) {make : α → EdgeKind}
      (h : ∀ a, make a = (make a).withPolicy policy) :
      make <$> x = (make <$> x).map (EdgeKind.withPolicy policy) := by
    cases x with
    | error err => rfl
    | ok a => exact congrArg Except.ok (h a)
  -- only discovered domains keep the policy
  unfold Edge.kind
  split
  next => exact same _ fun _ => rfl
  next => rfl
  next =>
      rw [TupleEdge.ofDimension_policy catalog options]
      exact made _ fun _ => rfl
  next => exact same _ fun _ => rfl
  next => exact same _ fun _ => rfl
  next =>
      split
      next =>
          rw [TupleEdge.ofObject_policy catalog options]
          exact made _ fun _ => rfl
      next =>
          rw [ValueEdge.ofValue_policy catalog options]
          exact made _ fun _ => rfl
  next => rfl

namespace Grouping

theorem Pieces.ofQuery_policy (q : Query) :
    Pieces.ofQuery catalog { options with overflow := policy } q
      = (Pieces.ofQuery catalog options q).map (Pieces.withPolicy policy) := by
  have hdecoder : decoderOf catalog { options with overflow := policy } q
      = fun placed => (decoderOf catalog options q placed).map (Decoder.withPolicy policy) := by
    funext placed
    simp only [decoderOf, Decoder.ofEdge, Results.map_bind]
    refine congrArg (placed.edge.depth catalog >>= ·) (funext fun depth => ?_)
    rw [Edge.kind_policy catalog options policy, Results.bind_map]
    rfl
  unfold Pieces.ofQuery
  rw [Results.map_bind]
  refine congrArg (sortEdges q >>= ·) (funext fun sorted => ?_)
  rw [hdecoder, Results.mapM_map, Results.bind_map, Results.map_bind]
  refine congrArg (sorted.mapM (decoderOf catalog options q) >>= ·) (funext fun unplaced => ?_)
  rw [Results.map_bind]
  refine congrArg (q.selects.mapM _ >>= ·) (funext fun plans => ?_)
  rw [Results.map_bind]
  rfl

/-- **Another policy changes the policy of the decoders** and nothing else in a plan. -/
theorem compile_policy (q : Query) :
    compile catalog { options with overflow := policy } q
      = (compile catalog options q).map (GroupingPlan.withPolicy policy) := by
  unfold compile
  rw [Pieces.ofQuery_policy catalog options, Results.bind_map, Results.map_bind]
  refine congrArg (Pieces.ofQuery catalog options q >>= ·) (funext fun pieces => ?_)
  rw [Pieces.assembly_withPolicy, Assembly.tree_map, Results.map_bind,
    Pieces.decoders_withPolicy]
  · rfl
  · exact fun d => ⟨rfl, funext fun inner => EdgeKind.encode_withPolicy policy d.kind inner⟩

end Grouping

end Compiling

/-! ## Decoding -/

namespace Grouping

open Response (walk)

theorem levels_withPolicy (policy : Overflow) (ds : List Decoder) :
    levels (ds.map (Decoder.withPolicy policy)) = levels ds := by
  rw [levels_eq_foldl, levels_eq_foldl, spans_map (f := Decoder.withPolicy policy)]
  exact fun d => ⟨rfl, EdgeKind.levels_withPolicy policy d.kind⟩

theorem sizes_withPolicy (policy : Overflow) (ds : List Decoder) :
    (ds.map (Decoder.withPolicy policy)).map Decoder.size = ds.map Decoder.size := by
  rw [List.map_map]
  refine List.map_congr_left fun d _ => ?_
  show (d.withPolicy policy).kind.partitionCount + _ = d.kind.partitionCount + _
  rw [Decoder.withPolicy, EdgeKind.partitionCount_withPolicy]

theorem Inner.inside {ds : List Decoder} {coord : List Nat} (h : Inner ds coord) :
    Matrix.inside (ds.map Decoder.size) coord = true := by
  rw [Matrix.inside_iff, List.forall₂_map_left_iff]
  exact h.imp fun _ _ hi => Nat.lt_of_lt_of_le hi (Nat.le_add_right _ _)

theorem inner_withPolicy {policy : Overflow} {ds : List Decoder} {coord : List Nat} :
    Inner (ds.map (Decoder.withPolicy policy)) coord ↔ Inner ds coord := by
  rw [Inner, List.forall₂_map_left_iff]
  have hcount (d : Decoder) : (d.withPolicy policy).partitionCount = d.partitionCount :=
    EdgeKind.partitionCount_withPolicy policy d.kind
  simp only [hcount]
  rfl

/-- Policies agree on how a response is counted, and each reads the rows of its own decoders. -/
theorem decode_withPolicy (policy : Overflow) (root : Json) (ds : List Decoder) :
    let counted :=
      (ds.map (Decoder.counted (walk (levels ds) root))).map (Decoder.withPolicy policy)
    countAll root (ds.map (Decoder.withPolicy policy)) = .ok counted
      ∧ Grouping.rows root counted = .ok ((walk (levels ds) root).filterMap (placed? counted)) := by
  intro counted
  obtain ⟨hcount, hrows, -, -⟩ := count_and_place root (ds.map (Decoder.withPolicy policy))
  have hcounted : (ds.map (Decoder.withPolicy policy)).map
      (Decoder.counted (walk (levels (ds.map (Decoder.withPolicy policy))) root)) = counted := by
    rw [levels_withPolicy, List.map_map]
    exact (List.map_congr_left fun d _ => d.counted_withPolicy policy _).trans List.map_map.symm
  rw [hcounted] at hcount hrows
  rw [levels_withPolicy] at hrows
  exact ⟨hcount, hrows⟩

/-- **The cells away from missing values** are made of the same rows under every policy. -/
theorem cellsAt_withPolicy (policy : Overflow) (p : GroupingPlan) (ds : List Decoder)
    (walked : List PathRow) {coord : List Nat} (hc : Inner ds coord) :
    cellsAt { p with decoders := ds.map (Decoder.withPolicy policy) }
        (walked.filterMap (placed? (ds.map (Decoder.withPolicy policy)))) coord
      = if HasTooManyCells { p with decoders := ds } then .error .tooLong
        else .ok (p.selects.map fun s =>
          (s.cell ((walked.filterMap (placed? ds)).filter (·.coord = coord))).value) := by
  have hdims : dims { p with decoders := ds.map (Decoder.withPolicy policy) }
      = dims { p with decoders := ds } := sizes_withPolicy policy ds
  have hlarge : HasTooManyCells { p with decoders := ds.map (Decoder.withPolicy policy) }
      ↔ HasTooManyCells { p with decoders := ds } := by
    rw [HasTooManyCells, HasTooManyCells, hdims]
  by_cases hcells : HasTooManyCells { p with decoders := ds }
  · rw [if_pos hcells, cellsAt, fillMatrices_tooLong (hlarge.mpr hcells)]
    rfl
  · rw [if_neg hcells]
    have hfits := mt hlarge.mp hcells
    rw [cellsAt_eq hfits (fun row hrow => inside_of_mem_rows hrow) (hdims ▸ hc.inside),
      filter_placed?_withPolicy policy hc]

/-- **The policy on overflow touches the cells of missing values only.** Under both policies a
query compiles to the same request, or fails alike. Every response has the same partitions under
both, and at every coordinate that names a partition of each edge the selects have the same values
in the cube, or both cubes are too large, and the same group. -/
theorem same_cells (catalog : Catalog) (options : Options) (q : Query) :
    (compile catalog { options with overflow := .drop } q).map GroupingPlan.request
        = (compile catalog { options with overflow := .other } q).map GroupingPlan.request
      ∧ ∀ dropping keeping : GroupingPlan,
        compile catalog { options with overflow := .drop } q = .ok dropping →
        compile catalog { options with overflow := .other } q = .ok keeping → ∀ root : Json,
        ∃ dropped kept droppedRows keptRows,
          countAll root dropping.decoders = .ok dropped ∧ countAll root keeping.decoders = .ok kept
          ∧ Grouping.rows root dropped = .ok droppedRows ∧ Grouping.rows root kept = .ok keptRows
          ∧ List.Forall₂ (fun d e => d.kind.partitions = e.kind.partitions) dropped kept
          ∧ ∀ coord, Inner dropped coord →
            cellsAt { dropping with decoders := dropped } droppedRows coord
                = cellsAt { keeping with decoders := kept } keptRows coord
              ∧ (¬ HasTooManyCells { dropping with decoders := dropped } →
                ∃ values,
                  cellsAt { dropping with decoders := dropped } droppedRows coord = .ok values)
              ∧ (groups { dropping with decoders := dropped } droppedRows).filter (·.coord = coord)
                = (groups { keeping with decoders := kept } keptRows).filter (·.coord = coord) := by
  rw [compile_policy catalog options .drop, compile_policy catalog options .other]
  constructor
  · cases compile catalog options q <;> rfl
  · intro dropping keeping hdropping hkeeping root
    cases hplan : compile catalog options q with
    | error e =>
        rw [hplan] at hdropping
        cases hdropping
    | ok plan =>
        -- both plans are the same one under the two policies
        rw [hplan] at hdropping hkeeping
        cases hdropping
        cases hkeeping
        obtain ⟨hdropped, hdroppedRows⟩ := decode_withPolicy .drop root plan.decoders
        obtain ⟨hkept, hkeptRows⟩ := decode_withPolicy .other root plan.decoders
        refine ⟨_, _, _, _, hdropped, hkept, hdroppedRows, hkeptRows, ?_, ?_⟩
        · rw [List.forall₂_map_left_iff, List.forall₂_map_right_iff, List.forall₂_same]
          intro d _
          exact (EdgeKind.partitions_withPolicy .drop d.kind).trans
            (EdgeKind.partitions_withPolicy .other d.kind).symm
        · intro coord hc
          have hc := inner_withPolicy.mp hc
          refine ⟨?_, ?_, ?_⟩
          · exact (cellsAt_withPolicy .drop plan _ _ hc).trans
              (cellsAt_withPolicy .other plan _ _ hc).symm
          · intro hcells
            exact ⟨_, cellsAt_eq hcells (fun row hrow => inside_of_mem_rows hrow)
              (inner_withPolicy.mpr hc).inside⟩
          · rw [filter_groups, filter_groups, filter_placed?_withPolicy .drop hc,
              filter_placed?_withPolicy .other hc]
            rfl

/-- With a limit of one value the policies read different rows and have the same value in the one
partition. -/
theorem same_cells_limited :
    ∃ droppedRows keptRows, Grouping.rows limitedRoot [limitedCounted .drop] = .ok droppedRows
      ∧ Grouping.rows limitedRoot [limitedCounted .other] = .ok keptRows
      ∧ droppedRows.map (·.coord) = [[0], [1]] ∧ keptRows.map (·.coord) = [[1], [0], [1]]
      ∧ ∃ values,
        cellsAt { limitedGrouping .drop with decoders := [limitedCounted .drop] } droppedRows [0]
          = .ok values
        ∧ cellsAt { limitedGrouping .other with decoders := [limitedCounted .other] } keptRows [0]
          = .ok values := by
  obtain ⟨dropped, kept, droppedRows, keptRows, hdropped, hkept, hdroppedRows, hkeptRows, -,
    hcells⟩ := (same_cells sampleCatalog .default limitedQuery).2 _ _ (compile_limited .drop)
      (compile_limited .other) limitedRoot
  cases hdropped.symm.trans (countAll_limited .drop)
  cases hkept.symm.trans (countAll_limited .other)
  have hinner : Inner [limitedCounted .drop] [0] := .cons (by decide) .nil
  have hfits :
      ¬ HasTooManyCells { limitedGrouping .drop with decoders := [limitedCounted .drop] } := by
    decide
  obtain ⟨hsame, htotal, -⟩ := hcells [0] hinner
  obtain ⟨values, hvalues⟩ := htotal hfits
  cases hdroppedRows.symm.trans rows_limited
  have hkeptCoords : keptRows.map (·.coord) = [[1], [0], [1]] := by
    have hrows : Grouping.rows limitedRoot [limitedCounted .other] = .ok
        [{ coord := [1], node := valueNode 1 }, { coord := [0], node := valueNode 2 },
          { coord := [1], node := sampleNode }] := by cbv
    cases hkeptRows.symm.trans hrows
    rfl
  exact ⟨_, keptRows, hdroppedRows, hkeptRows, rfl, hkeptCoords, values, hvalues,
    hsame.symm.trans hvalues⟩

end Grouping

end Tabula
