import Mathlib
import Tabula.Proofs.Edge.Places
import Tabula.Proofs.Grouping.Rows

/-!
# Where rows go

With a compiled query every row of a mirror passes each edge by steps that the edge asked for
(`offered_of_mem_walk`), and counting the response settles the values of these rows. So the place
of a row means what it says (`coord_stands`): each component is a partition that the row names,
or the last one where it names none. A row is dropped exactly when some decoder drops it
(`dropped_iff`), be it for lack of a place for missing values or because the limit cut its value.
-/

set_option autoImplicit false

namespace Tabula

open Response (walk)

/-! ## Counted decoders -/

namespace Decoder

/-- A decoder that has counted some rows has settled what they met. -/
theorem kind_counted (rows : List PathRow) (d : Decoder) :
    (d.counted rows).kind
      = d.kind.settle ((rows.map fun row => d.own row.parts).filterMap d.kind.met?) := by
  rw [← EdgeKind.doneCount_foldl_count, List.foldl_map]
  rfl

/-- **After counting, slots say what they should** of the rows that were counted. -/
theorem means_counted {d : Decoder} {policy : Overflow} (hs : d.kind.Sound)
    (hf : d.kind.Fresh policy) {rows : List PathRow}
    (ho : ∀ row ∈ rows, d.kind.Offered (d.own row.parts)) {row : PathRow} (hrow : row ∈ rows) :
    (d.counted rows).kind.Means ((d.counted rows).own row.parts)
      ((d.counted rows).kind.slot ((d.counted rows).own row.parts)) := by
  rw [own_counted, kind_counted]
  have hoffered : (d.kind.settle
      ((rows.map fun row => d.own row.parts).filterMap d.kind.met?)).Offered (d.own row.parts) := by
    rw [EdgeKind.Offered, EdgeKind.asks_settle]
    exact ho row hrow
  refine EdgeKind.means_slot ((EdgeKind.sound_settle _ _).mpr hs) hoffered
    (EdgeKind.settled_settle hf _) ?_
  -- the value that the row stands for is one of those that were met
  intro v hv
  rw [EdgeKind.stands?_settle, ← EdgeKind.map_met?_of_offered (ho row hrow)] at hv
  obtain ⟨m, hm, rfl⟩ := Option.map_eq_some_iff.mp hv
  exact List.mem_map_of_mem
    (List.mem_filterMap.mpr ⟨_, List.mem_map_of_mem hrow, hm⟩)

end Decoder

namespace Grouping

/-! ## Compiled decoders -/

section Compiled

variable {catalog : Catalog} {options : Options} {q : Query}

theorem Pieces.fresh_decoders {pieces : Pieces}
    (h : Pieces.ofQuery catalog options q = .ok pieces) :
    ∀ d ∈ pieces.decoders, d.kind.Fresh options.overflow := by
  refine Pieces.decoders_of_ofQuery h (fun _ _ => Iff.rfl) ?_
  intro requested index e d hd
  obtain ⟨depth, -, hd⟩ := Results.bind_eq_ok.mp hd
  obtain ⟨kind, hkind, hd⟩ := Results.bind_eq_ok.mp hd
  cases hd
  exact EdgeKind.fresh_kind hkind

/-- **In every row of a mirror, a decoder finds steps that its edge asked for.** -/
theorem offered_of_mem_walk {plan : GroupingPlan} (h : compile catalog options q = .ok plan)
    {root : Json} (hroot : plan.tree.Mirrors root) {row : PathRow}
    (hrow : row ∈ walk (levels plan.decoders) root) {d : Decoder} (hd : d ∈ plan.decoders) :
    d.kind.Offered (d.own row.parts) := by
  obtain ⟨pieces, tree, hp, -, -⟩ := compile_eq_ok h
  obtain ⟨layers, -, htree, hedges, hdecoders⟩ := layers_of_compile h hp
  have hsound : ∀ e ∈ edges layers, e.kind.Sound := by
    rw [hedges]
    intro e he
    exact Pieces.sound_decoders hp e (pieces.perm_outer.mem_iff.mp he)
  have hlevels : levels plan.decoders = totalLevels (edges layers) := by
    rw [hedges, hdecoders]
    exact pieces.levels_decoders
  rw [htree] at hroot
  rw [hlevels] at hrow
  obtain ⟨parts, hparts, hoffers⟩ := offers_of_mem_walk_layers hsound hroot hrow
  -- the row is made of one part for each edge, and a decoder finds the part of its own
  have hfit : List.Forall₂ (fun (d : Decoder) ps => ps.length = d.levels) (edges layers) parts := by
    refine hoffers.imp fun e ps hps => ?_
    rw [← hps.length_eq, EdgeKind.length_asks]
    rfl
  have htiled : Tiled 0 (edges layers) := by
    rw [hedges]
    exact pieces.tiled_outer
  have hslices := htiled.slices hfit (show ([] : List Part).length = 0 from rfl)
  have hmem : d ∈ edges layers := by
    rw [hedges, pieces.perm_outer.mem_iff, ← hdecoders]
    exact hd
  obtain ⟨i, hi, rfl⟩ := List.getElem_of_mem hmem
  have hlt : i < parts.length := hoffers.length_eq ▸ hi
  have hown := (Decoder.ownParts_eq_ok.mp (hslices.get hi hlt)).2
  rw [List.nil_append, ← hparts] at hown
  have hoffered := hoffers.get hi hlt
  rw [hown] at hoffered
  exact hoffered

/-- The slots of the rows of a mirror say what they should. -/
theorem means_of_mem_walk {plan : GroupingPlan} (h : compile catalog options q = .ok plan)
    {root : Json} (hroot : plan.tree.Mirrors root) {row : PathRow}
    (hrow : row ∈ walk (levels plan.decoders) root) {d : Decoder}
    (hd : d ∈ plan.decoders.map (Decoder.counted (walk (levels plan.decoders) root))) :
    d.kind.Means (d.own row.parts) (d.kind.slot (d.own row.parts)) := by
  obtain ⟨e, he, rfl⟩ := List.mem_map.mp hd
  obtain ⟨pieces, tree, hp, -, rfl⟩ := compile_eq_ok h
  exact Decoder.means_counted (Pieces.sound_decoders hp e he) (Pieces.fresh_decoders hp e he)
    (fun row hrow => offered_of_mem_walk h hroot hrow he) hrow

end Compiled

/-! ## Places -/

def Dropped (ds : List Decoder) (row : PathRow) : Prop :=
  ∃ d ∈ ds, ∃ own, d.ownParts row.parts = .ok own ∧ d.Drops own

theorem placed?_eq_none_iff {ds : List Decoder} {row : PathRow}
    (hw : Within row.parts.length ds)
    (hm : ∀ d ∈ ds, d.kind.Means (d.own row.parts) (d.kind.slot (d.own row.parts))) :
    placed? ds row = none ↔ Dropped ds row := by
  rw [placed?, Option.map_eq_none_iff, places?_eq_none]
  constructor
  · rintro ⟨d, hd, hnone⟩
    exact ⟨d, hd, _, Decoder.ownParts_eq (hw.of_mem hd),
      (Decoder.place?_eq_none_iff (hm d hd)).mp hnone⟩
  · rintro ⟨d, hd, own, hown, hdrops⟩
    rw [(Decoder.ownParts_eq_ok.mp hown).2] at hdrops
    exact ⟨d, hd, (Decoder.place?_eq_none_iff (hm d hd)).mpr hdrops⟩

theorem stands_of_placed? {ds : List Decoder} {row : PathRow} (hw : Within row.parts.length ds)
    (hm : ∀ d ∈ ds, d.kind.Means (d.own row.parts) (d.kind.slot (d.own row.parts))) {r : Row}
    (hr : placed? ds row = some r) :
    List.Forall₂ (fun d i => ∃ own, d.ownParts row.parts = .ok own ∧ d.Stands own i) ds
      r.coord := by
  obtain ⟨coord, hcoord, rfl⟩ := Option.map_eq_some_iff.mp hr
  have hplaces := places?_eq_some.mp hcoord
  clear hr hcoord
  induction hplaces with
  | nil => exact .nil
  | @cons d i ds coord hi _ ih =>
      obtain ⟨hmd, hmds⟩ := List.forall_mem_cons.mp hm
      have hwds : Within row.parts.length ds := fun s hs => hw s (List.mem_cons_of_mem _ hs)
      exact .cons ⟨_, Decoder.ownParts_eq (hw.of_mem List.mem_cons_self),
        Decoder.stands_of_place? hmd hi⟩ (ih hwds hmds)

/-! ## A limit of one value -/

/-- The number of values of `m` for the most frequent value of `a`. -/
def limitedQuery : Query := { sampleQuery with limit := some 1 }

def limitedDecoder (policy : Overflow) : Decoder :=
  { sampleDecoder with
    kind := .value
      { source := .column "a", missing := .missing "a", sort := none, limit := 1, policy,
        tally := .empty } }

def limitedGrouping (policy : Overflow) : GroupingPlan where
  tree :=
    [("_match", .node (.terms (.column "a") (some 1) none none) sampleInner),
      ("_missing", .node (.missing "a") sampleInner)]
  keyOrder := .key
  decoders := [limitedDecoder policy]
  selects := [{ select := sampleSelect, pull := samplePlan.pull }]

theorem compile_limited (policy : Overflow) :
    compile sampleCatalog { Options.default with overflow := policy } limitedQuery
      = .ok (limitedGrouping policy) := by
  cases policy <;> cbv

def valueNode (docs : Nat) : Json :=
  .obj [("doc_count", .nat docs), ("c.m_cardinality", .obj [("value", .nat docs)])]

def valueBucket (value : String) (docs : Nat) : Json :=
  .obj [("key", .str value), ("doc_count", .nat docs), ("_nested", valueNode docs)]

def limitedRoot : Json :=
  .obj [("_match", .obj [("buckets", .arr [valueBucket "y" 1, valueBucket "x" 2])]),
    ("_missing", sampleBucket)]

theorem mirrors_limited (policy : Overflow) :
    (limitedGrouping policy).tree.Mirrors limitedRoot := by
  have hmetrics (docs : Nat) : sampleMetrics.Mirrors (valueNode docs) :=
    ⟨_, rfl, framed_of_names ["doc_count", "c.m_cardinality"] _ rfl (by decide) (by decide),
      ⟨_, rfl, Or.inl (by decide)⟩, trivial⟩
  have hvalue (value : String) (docs : Nat) : sampleInner.Mirrors (valueBucket value docs) :=
    ⟨_, rfl, framed_of_names ["key", "doc_count", "_nested"] _ rfl (by decide) (by decide),
      ⟨_, rfl, Or.inr (hmetrics docs)⟩, trivial⟩
  have hnode : sampleMetrics.Mirrors sampleNode :=
    ⟨_, rfl, ⟨by decide, by decide⟩, ⟨_, rfl, Or.inl (by decide)⟩, trivial⟩
  have hmissing : sampleInner.Mirrors sampleBucket :=
    ⟨_, rfl, ⟨by decide, by decide⟩, ⟨_, rfl, Or.inr hnode⟩, trivial⟩
  refine ⟨_, rfl,
    framed_of_names ["_match", "_missing"] ["_match", "_missing"] rfl (by decide) (by decide),
    ⟨_, rfl, Or.inr ⟨_, _, rfl, ⟨by decide, by decide⟩, rfl, ?_⟩⟩, ⟨_, rfl, Or.inr hmissing⟩,
    trivial⟩
  intro bucket hb
  simp only [List.mem_cons, List.not_mem_nil, or_false] at hb
  rcases hb with rfl | rfl
  · exact hvalue "y" 1
  · exact hvalue "x" 2

def rareRow : PathRow := { parts := [.matched 0 (valueBucket "y" 1)], node := valueNode 1 }

def frequentRow : PathRow := { parts := [.matched 1 (valueBucket "x" 2)], node := valueNode 2 }

def missingRow : PathRow := { parts := [.missing sampleNode], node := sampleNode }

theorem walk_limited (policy : Overflow) :
    walk (levels (limitedGrouping policy).decoders) limitedRoot
      = [rareRow, frequentRow, missingRow] := rfl

/-- The decoder after counting: it keeps the more frequent value. -/
def limitedCounted (policy : Overflow) : Decoder :=
  { limitedDecoder policy with
    kind := .value
      { source := .column "a", missing := .missing "a", sort := none, limit := 1, policy
        tally :=
          { pending := []
            frozen := some
              { retained := [{ key := "\"x\"", value := .str "x", docs := 2 }]
                beyond := [{ key := "\"y\"", value := .str "y", docs := 1 }] } } } }

theorem countAll_limited (policy : Overflow) :
    countAll limitedRoot (limitedGrouping policy).decoders = .ok [limitedCounted policy] := by
  cases policy <;> cbv

theorem rows_limited : Grouping.rows limitedRoot [limitedCounted .drop]
    = .ok [{ coord := [0], node := valueNode 2 }, { coord := [1], node := sampleNode }] := by
  cbv

/-! ## Rows that are lost, and rows that are read -/

section Rows

variable {catalog : Catalog} {options : Options} {q : Query} {plan : GroupingPlan} {root : Json}

/-- **Rows are lost for two reasons only**: each row of the walk has its place among the rows that
are read, in the order of the walk, unless some decoder drops it. A decoder drops a row that names
none of its partitions when it has no place for missing values, and else a row whose discovered
value was cut by the limit under the policy to drop. Under the other policy, with a place for
missing values at every edge, no row is lost. -/
theorem dropped_iff (h : compile catalog options q = .ok plan) (hroot : plan.tree.Mirrors root) :
    ∃ counted rows, countAll root plan.decoders = .ok counted
      ∧ Grouping.rows root counted = .ok rows
      ∧ (∃ fates : List (Option Row), rows = fates.filterMap id
        ∧ List.Forall₂ (fun row fate => (fate = none ↔ Dropped counted row)
            ∧ ∀ r, fate = some r → r.node = row.node
              ∧ coord? row.parts counted = .ok (some r.coord))
          (walk (levels plan.decoders) root) fates)
      ∧ (∀ d ∈ counted, ∀ domain, d.kind.discovery? = some domain →
        domain.policy = options.overflow)
      ∧ (options.overflow = .other → (∀ d ∈ counted, d.allowNulls = true) →
        rows.length = (walk (levels plan.decoders) root).length) := by
  let walked := walk (levels plan.decoders) root
  let counted := plan.decoders.map (Decoder.counted walked)
  obtain ⟨hcount, hrows, hfrozen, hwithin⟩ := count_and_place root plan.decoders
  have hfate : ∀ row ∈ walked, placed? counted row = none ↔ Dropped counted row := by
    intro row hrow
    exact placed?_eq_none_iff (hwithin row hrow) fun d hd => means_of_mem_walk h hroot hrow hd
  have hpolicy : ∀ d ∈ counted, ∀ domain, d.kind.discovery? = some domain →
      domain.policy = options.overflow := by
    intro d hd domain hdomain
    obtain ⟨e, he, rfl⟩ := List.mem_map.mp hd
    obtain ⟨pieces, tree, hp, -, rfl⟩ := compile_eq_ok h
    rw [Decoder.kind_counted, EdgeKind.discovery?_settle] at hdomain
    obtain ⟨before, hbefore, rfl⟩ := Option.map_eq_some_iff.mp hdomain
    exact (Pieces.fresh_decoders hp e he before hbefore).2
  refine ⟨counted, _, hcount, hrows, ⟨walked.map (placed? counted), ?_, ?_⟩, hpolicy, ?_⟩
  · rw [List.filterMap_map]
    rfl
  · rw [List.forall₂_map_right_iff, List.forall₂_same]
    intro row hrow
    refine ⟨hfate row hrow, ?_⟩
    intro r hr
    obtain ⟨coord, hcoord, rfl⟩ := Option.map_eq_some_iff.mp hr
    exact ⟨rfl, by rw [coord?_eq hfrozen (hwithin row hrow), hcoord]⟩
  · intro hother hnulls
    -- no decoder drops a row, for every one of them has a place for it
    have hplaced : ∀ row ∈ walked, ∃ r, placed? counted row = some r := by
      intro row hrow
      refine Option.ne_none_iff_exists'.mp fun hnone => ?_
      obtain ⟨d, hd, own, -, ⟨hno, -⟩ | ⟨-, domain, v, hdomain, hdrop, -⟩⟩ :=
        (hfate row hrow).mp hnone
      · rw [hnulls d hd] at hno
        cases hno
      · rw [hpolicy d hd domain hdomain, hother] at hdrop
        cases hdrop
    rw [List.length_filterMap_eq_countP, List.countP_eq_length]
    intro row hrow
    obtain ⟨r, hr⟩ := hplaced row hrow
    rw [hr]
    rfl

/-- The policy to drop loses the row of the rarer value and no other, and the other policy loses
none. -/
theorem dropped_limited :
    (∃ counted, countAll limitedRoot (limitedGrouping .drop).decoders = .ok counted
      ∧ Dropped counted rareRow ∧ ¬ Dropped counted frequentRow ∧ ¬ Dropped counted missingRow)
      ∧ ∃ counted rows, countAll limitedRoot (limitedGrouping .other).decoders = .ok counted
        ∧ Grouping.rows limitedRoot counted = .ok rows ∧ rows.length = 3 := by
  constructor
  · obtain ⟨counted, rows, hcount, hrows, ⟨fates, hfates, hall⟩, -, -⟩ :=
      dropped_iff (compile_limited .drop) (mirrors_limited .drop)
    rw [walk_limited] at hall
    cases hcount.symm.trans (countAll_limited .drop)
    cases hrows.symm.trans rows_limited
    obtain _ | ⟨hrare, _ | ⟨hfrequent, _ | ⟨hmissing, _ | _⟩⟩⟩ := hall
    rename_i rare frequent missing
    have hnone : rare = none := by
      refine Option.eq_none_iff_forall_ne_some.mpr fun r hr => ?_
      have hcoord : coord? rareRow.parts [limitedCounted .drop] = .ok none := by cbv
      have hplace := (hrare.2 r hr).2
      rw [hcoord] at hplace
      cases hplace
    subst hnone
    -- two rows are read, so neither of the other two is lost
    obtain ⟨r, rfl⟩ : ∃ r, frequent = some r := by
      cases frequent with
      | none => cases missing <;> cases hfates
      | some r => exact ⟨r, rfl⟩
    obtain ⟨r', rfl⟩ : ∃ r', missing = some r' := by
      cases missing with
      | none => cases hfates
      | some r' => exact ⟨r', rfl⟩
    exact ⟨_, hcount, hrare.1.mp rfl, fun h => Option.some_ne_none r (hfrequent.1.mpr h),
      fun h => Option.some_ne_none r' (hmissing.1.mpr h)⟩
  · obtain ⟨counted, rows, hcount, hrows, -, -, hlen⟩ :=
      dropped_iff (compile_limited .other) (mirrors_limited .other)
    cases hcount.symm.trans (countAll_limited .other)
    have hnulls : ∀ d ∈ [limitedCounted .other], d.allowNulls = true := by
      simp [limitedCounted, limitedDecoder, sampleDecoder]
    exact ⟨_, rows, hcount, hrows, hlen rfl hnulls⟩

/-- **Places mean what they say**: each row that is read is a row of the walk, and each component
of its place is a partition that the row names, or the last one, for missing values, of a decoder
that has it and of whose partitions the row names none. -/
theorem coord_stands (h : compile catalog options q = .ok plan) (hroot : plan.tree.Mirrors root) :
    ∃ counted rows, countAll root plan.decoders = .ok counted
      ∧ Grouping.rows root counted = .ok rows
      ∧ ∀ r ∈ rows, ∃ row ∈ walk (levels plan.decoders) root, r.node = row.node
        ∧ coord? row.parts counted = .ok (some r.coord)
        ∧ List.Forall₂ (fun d i => ∃ own, d.ownParts row.parts = .ok own ∧ d.Stands own i)
          counted r.coord := by
  obtain ⟨hcount, hrows, hfrozen, hwithin⟩ := count_and_place root plan.decoders
  refine ⟨_, _, hcount, hrows, ?_⟩
  intro r hr
  obtain ⟨row, hrow, hplaced⟩ := List.mem_filterMap.mp hr
  have hmeans := fun d hd => means_of_mem_walk (d := d) h hroot hrow hd
  have hstands := stands_of_placed? (hwithin row hrow) hmeans hplaced
  obtain ⟨coord, hcoord, rfl⟩ := Option.map_eq_some_iff.mp hplaced
  exact ⟨row, hrow, rfl, by rw [coord?_eq hfrozen (hwithin row hrow), hcoord], hstands⟩

/-- The row of the more frequent value is in the one partition, and that of the missing value in
the last place. -/
theorem stands_limited :
    ∃ counted rows, countAll limitedRoot (limitedGrouping .drop).decoders = .ok counted
      ∧ Grouping.rows limitedRoot counted = .ok rows ∧ rows.map (·.coord) = [[0], [1]]
      ∧ ∀ r ∈ rows, ∃ row ∈ [rareRow, frequentRow, missingRow],
        List.Forall₂ (fun d i => ∃ own, d.ownParts row.parts = .ok own ∧ d.Stands own i)
          counted r.coord := by
  obtain ⟨counted, rows, hcount, hrows, hall⟩ :=
    coord_stands (compile_limited .drop) (mirrors_limited .drop)
  cases hcount.symm.trans (countAll_limited .drop)
  cases hrows.symm.trans rows_limited
  refine ⟨_, _, hcount, hrows, rfl, ?_⟩
  intro r hr
  obtain ⟨row, hrow, -, -, hstands⟩ := hall r hr
  exact ⟨row, hrow, hstands⟩

end Rows

end Grouping

end Tabula
