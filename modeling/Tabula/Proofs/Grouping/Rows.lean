import Tabula.Grouping.Rows
import Tabula.Proofs.Edge.Slots
import Tabula.Proofs.Result.Matrices

/-!
# Rows of any response

Reading the response of an aggregation never fails, whatever the response is. A walk gives rows
of one width (`length_of_mem_walk`), which is wide enough for every decoder, so that rows can be
counted (`countAll_eq`) and, with all domains settled, placed in the cube (`rows_eq`).
-/

set_option autoImplicit false

namespace Tabula

/-! ## The width of rows -/

theorem Response.length_of_mem_walk {n : Nat} {node : Json} {row : PathRow}
    (h : row ∈ walk n node) : row.parts.length = n := by
  induction n generalizing node row with
  | zero =>
      rw [walk, List.mem_singleton] at h
      rw [h]
      rfl
  | succ n ih =>
      rw [walk] at h
      split at h
      next =>
          obtain ⟨⟨part, child⟩, -, h⟩ := List.mem_flatMap.mp h
          obtain ⟨inner, hinner, rfl⟩ := List.mem_map.mp h
          rw [List.length_cons, ih hinner]
      next => simp at h

namespace Grouping

open Response (walk length_of_mem_walk)

/-! ## Steps of decoders -/

/-- The first step of each decoder and their number. Counting leaves them as they are. -/
def spans (ds : List Decoder) : List (Nat × Nat) := ds.map fun d => (d.start, d.levels)

/-- Whether each decoder owns steps of a row of some width. -/
def Within (n : Nat) (ds : List Decoder) : Prop := ∀ s ∈ spans ds, s.1 + s.2 ≤ n

theorem Within.of_mem {n : Nat} {ds : List Decoder} (h : Within n ds) {d : Decoder}
    (hd : d ∈ ds) : d.start + d.levels ≤ n :=
  h (d.start, d.levels) (List.mem_map.mpr ⟨d, hd, rfl⟩)

theorem within_congr {n : Nat} {ds ds' : List Decoder} (h : spans ds' = spans ds) :
    Within n ds' ↔ Within n ds := by
  rw [Within, Within, h]

theorem levels_eq_foldl (ds : List Decoder) :
    levels ds = (spans ds).foldl (fun n s => max n (s.1 + s.2)) 0 := by
  rw [spans, List.foldl_map]
  rfl

theorem le_foldl_max (spans : List (Nat × Nat)) (n : Nat) :
    n ≤ spans.foldl (fun n s => max n (s.1 + s.2)) n
      ∧ ∀ s ∈ spans, s.1 + s.2 ≤ spans.foldl (fun n s => max n (s.1 + s.2)) n := by
  induction spans generalizing n with
  | nil => simp
  | cons s spans ih =>
      obtain ⟨hle, hall⟩ := ih (max n (s.1 + s.2))
      rw [List.foldl_cons]
      refine ⟨by omega, ?_⟩
      intro t ht
      rcases List.mem_cons.mp ht with rfl | ht
      · omega
      · exact hall t ht

theorem within_levels (ds : List Decoder) : Within (levels ds) ds := by
  rw [Within, levels_eq_foldl]
  exact (le_foldl_max (spans ds) 0).2

end Grouping

/-! ## Counting -/

namespace Decoder

def tallied (rows : List PathRow) (d : Decoder) : Decoder :=
  { d with kind := rows.foldl (fun kind row => kind.count (d.own row.parts)) d.kind }

def counted (rows : List PathRow) (d : Decoder) : Decoder := (d.tallied rows).doneCount

theorem levels_tallied (rows : List PathRow) (d : Decoder) :
    (d.tallied rows).levels = d.levels := by
  show (rows.foldl (fun kind row => kind.count (d.own row.parts)) d.kind).levels = d.kind.levels
  generalize d.kind = kind
  induction rows generalizing kind with
  | nil => rfl
  | cons row rows ih => rw [List.foldl_cons, ih, EdgeKind.levels_count]

theorem levels_counted (rows : List PathRow) (d : Decoder) : (d.counted rows).levels = d.levels :=
  (EdgeKind.levels_doneCount _).trans (levels_tallied rows d)

theorem own_counted (rows : List PathRow) (d : Decoder) (parts : List Part) :
    (d.counted rows).own parts = d.own parts := by
  rw [own, levels_counted]
  rfl

theorem isFrozen_counted (rows : List PathRow) (d : Decoder) :
    (d.counted rows).kind.isFrozen = true :=
  EdgeKind.isFrozen_doneCount _

theorem tallied_cons (row : PathRow) (rows : List PathRow) (d : Decoder) :
    d.tallied (row :: rows)
      = ({ d with kind := d.kind.count (d.own row.parts) } : Decoder).tallied rows := by
  -- the decoder cuts rows as before, since counting keeps its levels
  have hown (parts : List Part) :
      ({ d with kind := d.kind.count (d.own row.parts) } : Decoder).own parts = d.own parts := by
    rw [own, own, Decoder.levels, EdgeKind.levels_count]
    rfl
  simp only [tallied, List.foldl_cons, hown]

/-- Where the partitions are known there is nothing to count. -/
theorem tallied_of_not_discovery {d : Decoder} (h : d.kind.isDiscovery = false)
    (rows : List PathRow) : d.tallied rows = d := by
  induction rows with
  | nil => rfl
  | cons row rows ih => rw [tallied_cons, EdgeKind.count_of_not_discovery h, ih]

end Decoder

namespace Grouping

open Response (walk length_of_mem_walk)

theorem countRow_eq {ds : List Decoder} {row : PathRow} (h : Within row.parts.length ds) :
    countRow ds row = .ok (ds.map fun d => { d with kind := d.kind.count (d.own row.parts) }) :=
  Results.mapM_of_eq_ok fun _ hd => Decoder.count_eq (h.of_mem hd)

theorem spans_map {f : Decoder → Decoder}
    (hf : ∀ d, (f d).start = d.start ∧ (f d).levels = d.levels) (ds : List Decoder) :
    spans (ds.map f) = spans ds := by
  rw [spans, spans, List.map_map]
  refine List.map_congr_left fun d _ => ?_
  show ((f d).start, (f d).levels) = _
  rw [(hf d).1, (hf d).2]

/-- Counting rows that are wide enough. -/
theorem foldlM_countRow_eq {rows : List PathRow} {ds : List Decoder}
    (h : ∀ row ∈ rows, Within row.parts.length ds) :
    rows.foldlM countRow ds = .ok (ds.map (Decoder.tallied rows)) := by
  induction rows generalizing ds with
  | nil => exact congrArg Except.ok (List.map_id'' (fun _ => rfl) ds).symm
  | cons row rows ih =>
      obtain ⟨hrow, hrows⟩ := List.forall_mem_cons.mp h
      have hspans := spans_map (f := fun d => { d with kind := d.kind.count (d.own row.parts) })
        (fun d => ⟨rfl, EdgeKind.levels_count _ _⟩) ds
      rw [List.foldlM_cons, countRow_eq hrow, Results.ok_bind,
        ih fun row' hrow' => (within_congr hspans).mpr (hrows row' hrow'), List.map_map]
      refine congrArg Except.ok (List.map_congr_left fun d _ => ?_)
      exact (Decoder.tallied_cons row rows d).symm

/-- **Counting a response succeeds**: every decoder counts the rows of the walk and settles its
domain. -/
theorem countAll_eq (root : Json) (ds : List Decoder) :
    countAll root ds = .ok (ds.map (Decoder.counted (walk (levels ds) root))) := by
  unfold countAll
  split
  next =>
      have hwithin : ∀ row ∈ walk (levels ds) root, Within row.parts.length ds := by
        intro row hrow
        rw [length_of_mem_walk hrow]
        exact within_levels ds
      rw [foldlM_countRow_eq hwithin, Results.ok_bind]
      exact congrArg Except.ok List.map_map
  next hnone =>
      refine congrArg Except.ok (List.map_congr_left fun d hd => ?_)
      have hd : d.kind.isDiscovery = false := by
        simpa using fun h => hnone (List.any_eq_true.mpr ⟨d, hd, h⟩)
      rw [Decoder.counted, Decoder.tallied_of_not_discovery hd]

theorem spans_counted (rows : List PathRow) (ds : List Decoder) :
    spans (ds.map (Decoder.counted rows)) = spans ds :=
  spans_map (f := Decoder.counted rows) (fun d => ⟨rfl, d.levels_counted rows⟩) ds

theorem levels_counted (rows : List PathRow) (ds : List Decoder) :
    levels (ds.map (Decoder.counted rows)) = levels ds := by
  rw [levels_eq_foldl, spans_counted, levels_eq_foldl]

/-! ## Placing -/

/-- The place of a row that is wide enough, none when some decoder drops it. -/
def places? (parts : List Part) : List Decoder → Option (List Nat)
  | [] => some []
  | d :: rest =>
      match d.place? parts with
      | none => none
      | some i => (places? parts rest).map (i :: ·)

theorem places?_eq_some {parts : List Part} {ds : List Decoder} {coord : List Nat} :
    places? parts ds = some coord
      ↔ List.Forall₂ (fun d i => d.place? parts = some i) ds coord := by
  induction ds generalizing coord with
  | nil =>
      rw [places?, List.forall₂_nil_left_iff]
      exact ⟨fun h => by cases h; rfl, fun h => by rw [h]⟩
  | cons d ds ih =>
      rw [places?, List.forall₂_cons_left_iff]
      cases hd : d.place? parts with
      | none => simp
      | some i =>
          simp only [Option.map_eq_some_iff, Option.some.injEq, ih]
          constructor
          · rintro ⟨rest, hrest, rfl⟩
            exact ⟨i, rest, rfl, hrest, rfl⟩
          · rintro ⟨j, rest, rfl, hrest, rfl⟩
            exact ⟨rest, hrest, rfl⟩

theorem places?_eq_none {parts : List Part} {ds : List Decoder} :
    places? parts ds = none ↔ ∃ d ∈ ds, d.place? parts = none := by
  induction ds with
  | nil => simp [places?]
  | cons d ds ih =>
      rw [places?]
      cases hd : d.place? parts with
      | none => simp [hd]
      | some i => simp [hd, ih]

theorem inside_of_places? {parts : List Part} {ds : List Decoder} {coord : List Nat}
    (h : places? parts ds = some coord) : Matrix.inside (ds.map Decoder.size) coord = true := by
  rw [Matrix.inside_iff, List.forall₂_map_left_iff]
  exact (places?_eq_some.mp h).imp fun _ _ hi => Decoder.place?_lt hi

theorem coord?_eq {parts : List Part} {ds : List Decoder}
    (hf : ∀ d ∈ ds, d.kind.isFrozen = true) (hw : Within parts.length ds) :
    coord? parts ds = .ok (places? parts ds) := by
  induction ds with
  | nil => rfl
  | cons d ds ih =>
      have hrest : Within parts.length ds := fun s hs => hw s (List.mem_cons_of_mem _ hs)
      rw [coord?, Decoder.index?_eq (hf d List.mem_cons_self) (hw.of_mem List.mem_cons_self),
        Results.ok_bind, places?]
      cases d.place? parts with
      | none => rfl
      | some i =>
          simp only
          rw [ih (fun e he => hf e (List.mem_cons_of_mem _ he)) hrest, Results.ok_bind]

def placed? (ds : List Decoder) (row : PathRow) : Option Row :=
  (places? row.parts ds).map fun coord => { coord, node := row.node }

/-- **Rows have places inside of the cube.** -/
theorem inside_of_mem_rows {ds : List Decoder} {walked : List PathRow} {row : Row}
    (h : row ∈ walked.filterMap (placed? ds)) :
    Matrix.inside (ds.map Decoder.size) row.coord = true := by
  obtain ⟨walkedRow, -, h⟩ := List.mem_filterMap.mp h
  obtain ⟨coord, hcoord, rfl⟩ := Option.map_eq_some_iff.mp h
  exact inside_of_places? hcoord

/-- **Reading the rows of a response succeeds** with settled domains: they are the rows of the walk
that can be placed, in their order. -/
theorem rows_eq (root : Json) {ds : List Decoder} (hf : ∀ d ∈ ds, d.kind.isFrozen = true) :
    Grouping.rows root ds = .ok ((walk (levels ds) root).filterMap (placed? ds)) := by
  unfold Grouping.rows
  rw [Results.mapM_of_eq_ok (g := placed? ds), Results.ok_bind, List.filterMap_map]
  · rfl
  · intro row hrow
    have hwithin : Within row.parts.length ds := by
      rw [length_of_mem_walk hrow]
      exact within_levels ds
    rw [coord?_eq hf hwithin, Results.ok_bind]
    rfl

/-- **Every response can be counted and its rows be placed**: they are the rows of the walk that
have a place with the counted decoders, each of which finds its own steps in them. -/
theorem count_and_place (root : Json) (ds : List Decoder) :
    let counted := ds.map (Decoder.counted (walk (levels ds) root))
    countAll root ds = .ok counted
      ∧ Grouping.rows root counted = .ok ((walk (levels ds) root).filterMap (placed? counted))
      ∧ (∀ d ∈ counted, d.kind.isFrozen = true)
      ∧ ∀ row ∈ walk (levels ds) root, Within row.parts.length counted := by
  intro counted
  have hlevels : levels counted = levels ds := levels_counted _ ds
  have hfrozen : ∀ d ∈ counted, d.kind.isFrozen = true := by
    intro d hd
    obtain ⟨e, -, rfl⟩ := List.mem_map.mp hd
    exact Decoder.isFrozen_counted _ e
  refine ⟨countAll_eq root ds, ?_, hfrozen, ?_⟩
  · rw [rows_eq root hfrozen, hlevels]
  · intro row hrow
    rw [Response.length_of_mem_walk hrow, ← hlevels]
    exact within_levels counted

end Grouping

end Tabula
