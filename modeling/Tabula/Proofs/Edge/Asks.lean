import Tabula.Edge.Decoder
import Tabula.Proofs.Response.Mirror
import Tabula.Proofs.Results
import Tabula.Proofs.Search.Scopes

/-!
# What edges ask for

The five kinds of edges wrap their aggregations around the inner tree in different forms, and all
of them do the same: at each level of buckets they ask for a few aggregations side by side, each
with the same tree below it (`encode_eq`). `EdgeKind.Sound` says what compiling an edge makes sure
of, so that each of these aggregations is answered in the form that its marker promises
(`fits_asks`), and read by its name (`proper_asks`).
-/

set_option autoImplicit false

namespace Tabula

/-! ## Levels -/

/-- The aggregations of one level of buckets, each with the marker that names it. -/
abbrev Level := List (Marker × AggKind)

namespace Level

/-- The aggregations of a level, each with the same tree below it. -/
def around (inner : Aggs) (level : Level) : Aggs :=
  level.map fun a => (a.1.key, .node a.2 inner)

def stack (inner : Aggs) (levels : List Level) : Aggs :=
  levels.foldr (fun l tree => around tree l) inner

def joins : Nat → List Filter → Level
  | _, [] => []
  | i, f :: rest => (.join i, .filter f) :: joins (i + 1) rest

/-- Whether a marker promises the form in which a kind is answered. -/
def Fits (a : Marker × AggKind) : Prop :=
  match a.1 with
  | .matched | .other => a.2.shape = .several
  | .missing | .join _ => a.2.shape = .single
  | .filter | .nested | .payload => False

/-- The markers of a level have distinct names, can be read from them, and promise the form of
the answers. -/
structure Proper (level : Level) : Prop where
  nodup : (level.map (·.1.key)).Nodup
  reads : ∀ a ∈ level, Marker.ofName a.1.key = a.1
  fits : ∀ a ∈ level, Fits a

theorem around_joins (inner : Aggs) (i : Nat) (filters : List Filter) :
    (joins i filters).around inner = joinNodes inner i filters := by
  induction filters generalizing i with
  | nil => rfl
  | cons f filters ih => exact congrArg (_ :: ·) (ih (i + 1))

theorem mem_joins {a : Marker × AggKind} {i : Nat} {filters : List Filter} :
    a ∈ joins i filters ↔ ∃ j f, filters[j]? = some f ∧ a = (.join (i + j), .filter f) := by
  induction filters generalizing i with
  | nil => simp [joins]
  | cons f filters ih =>
      rw [joins, List.mem_cons, ih]
      constructor
      · rintro (rfl | ⟨j, g, hj, rfl⟩)
        · exact ⟨0, f, rfl, rfl⟩
        · refine ⟨j + 1, g, by simpa using hj, ?_⟩
          rw [Nat.add_assoc, Nat.add_comm 1 j]
      · rintro ⟨j, g, hj, rfl⟩
        cases j with
        | zero =>
            have : f = g := by simpa using hj
            exact Or.inl (by rw [this, Nat.add_zero])
        | succ j =>
            refine Or.inr ⟨j, g, by simpa using hj, ?_⟩
            rw [Nat.add_assoc, Nat.add_comm 1 j]

theorem length_joins (i : Nat) (filters : List Filter) :
    (joins i filters).length = filters.length := by
  induction filters generalizing i with
  | nil => rfl
  | cons f filters ih => exact congrArg Nat.succ (ih (i + 1))

theorem nodup_joins (i : Nat) (filters : List Filter) :
    ((joins i filters).map (·.1.key)).Nodup := by
  induction filters generalizing i with
  | nil => exact List.nodup_nil
  | cons f filters ih =>
      refine List.nodup_cons.mpr ⟨?_, ih (i + 1)⟩
      intro hmem
      obtain ⟨a, ha, hname⟩ := List.mem_map.mp hmem
      obtain ⟨j, g, _, rfl⟩ := mem_joins.mp ha
      have := Marker.joinKey_inj.mp hname
      omega

end Level

/-! ## Levels of edges -/

namespace EdgeKind

/-- What an edge asks for, one level of buckets after another. -/
def asks : EdgeKind → List Level
  | set e =>
      match e.selection with
      | .byValue source missing =>
          [[(.matched, .terms source (some (max e.partitions.length 1))
              (SetEdge.listed source e.partitions) none),
            (.missing, .filter missing)]]
      | .byFilter filters missing => [Level.joins 0 filters ++ [(.missing, .filter missing)]]
  | range e =>
      [[(.matched, .range e.source e.inside), (.other, .range e.source e.outside),
        (.missing, e.missing)]]
  | span e => [Level.joins 0 e.overlaps ++ [(.missing, .filter e.missing)]]
  | value e =>
      [[(.matched, .terms e.source (some e.limit) none e.sort), (.missing, e.missing)]]
  | tuple e =>
      e.fields.map fun f =>
        [(.matched, .terms (.column f.column) (some e.limit) none none),
          (.missing, .missing f.column)]

theorem length_asks (kind : EdgeKind) : kind.asks.length = kind.levels := by
  cases kind with
  | set e =>
      cases h : e.selection with
      | byValue source missing => simp [asks, levels, h]
      | byFilter filters missing => simp [asks, levels, h]
  | range e => rfl
  | span e => rfl
  | value e => rfl
  | tuple e => exact List.length_map _

theorem joinAndMissing_eq (inner : Aggs) (filters : List Filter) (missing : Filter) :
    joinAndMissing inner filters missing
      = (Level.joins 0 filters ++ [(Marker.missing, AggKind.filter missing)]).around inner := by
  rw [Level.around, List.map_append, joinAndMissing, ← Level.around_joins]
  rfl

theorem encodeFields_eq (limit : Nat) (inner : Aggs) (fields : List TupleField) :
    TupleEdge.encodeFields limit inner fields
      = Level.stack inner (fields.map fun f =>
          [(.matched, .terms (.column f.column) (some limit) none none),
            (.missing, .missing f.column)]) := by
  induction fields with
  | nil => rfl
  | cons f fields ih =>
      rw [TupleEdge.encodeFields, ih]
      rfl

/-- **An edge wraps its levels around a tree.** -/
theorem encode_eq (kind : EdgeKind) (inner : Aggs) :
    kind.encode inner = Level.stack inner kind.asks := by
  cases kind with
  | set e =>
      show e.encode inner = _
      cases h : e.selection with
      | byValue source missing =>
          simp only [SetEdge.encode, asks, h]
          rfl
      | byFilter filters missing =>
          simp only [SetEdge.encode, asks, h]
          exact joinAndMissing_eq inner filters missing
  | range e => rfl
  | span e => exact joinAndMissing_eq inner e.overlaps e.missing
  | value e => rfl
  | tuple e => exact encodeFields_eq e.limit inner e.fields

/-! ## Sound edges -/

/-- What the parts of an edge promise each other: as many filters as there are partitions, and
one bucket, in the same scope, for the documents without a value. -/
def Sound : EdgeKind → Prop
  | set e =>
      match e.selection with
      | .byValue _ _ => True
      | .byFilter filters _ => filters.length = e.partitions.length
  | range e => e.missing.shape = .single ∧ e.missing.Stays
  | span e => e.overlaps.length = e.steps.count
  | value e => e.missing.shape = .single ∧ e.missing.Stays
  | tuple _ => True

theorem missingKind_single {catalog : Catalog} {source : Source} {value : Expr} {kind : AggKind}
    (h : missingKind catalog source value = .ok kind) : kind.shape = .single ∧ kind.Stays := by
  cases source with
  | column name =>
      cases h
      exact ⟨rfl, trivial⟩
  | script source =>
      obtain ⟨filter, -, hk⟩ := Results.bind_eq_ok.mp h
      cases hk
      exact ⟨rfl, trivial⟩

theorem length_select {catalog : Catalog} {value : Option Expr} {partitions : List Partition}
    {filters : List Filter} {missing : Filter}
    (h : SetEdge.select catalog value partitions = .ok (.byFilter filters missing)) :
    filters.length = partitions.length := by
  unfold SetEdge.select at h
  split at h
  next =>
      obtain ⟨conditions, hconditions, h⟩ := Results.bind_eq_ok.mp h
      obtain ⟨_, -, h⟩ := Results.bind_eq_ok.mp h
      obtain ⟨filters', hfilters, h⟩ := Results.bind_eq_ok.mp h
      cases h
      rw [Results.length_of_mapM hfilters, Results.length_of_mapM hconditions]
  next =>
      split at h
      next => cases h
      next =>
          obtain ⟨_, -, h⟩ := Results.bind_eq_ok.mp h
          obtain ⟨_, -, h⟩ := Results.bind_eq_ok.mp h
          cases h

theorem sound_set {catalog : Catalog} {value : Option Expr} {partitions : List Partition}
    {e : SetEdge} (h : SetEdge.ofPartitions catalog value partitions = .ok e) :
    (set e).Sound := by
  obtain ⟨selection, hs, h⟩ := Results.bind_eq_ok.mp h
  cases h
  cases selection with
  | byValue source missing => trivial
  | byFilter filters missing =>
      show filters.length = (partitions.map (·.value)).length
      rw [length_select hs, List.length_map]

theorem sound_range {catalog : Catalog} {value : Expr} {min max interval : Float} {limit : Nat}
    {e : RangeEdge} (h : RangeEdge.ofValue catalog value min max interval limit = .ok e) :
    (range e).Sound := by
  obtain ⟨steps, -, h⟩ := Results.bind_eq_ok.mp h
  obtain ⟨source, -, h⟩ := Results.bind_eq_ok.mp h
  obtain ⟨missing, hm, h⟩ := Results.bind_eq_ok.mp h
  cases h
  exact missingKind_single hm

theorem sound_span {catalog : Catalog} {s : Span} {min max interval : Float} {limit : Nat}
    {e : SpanEdge} (h : SpanEdge.ofSpan catalog s min max interval limit = .ok e) :
    (span e).Sound := by
  obtain ⟨steps, -, h⟩ := Results.bind_eq_ok.mp h
  obtain ⟨overlaps, ho, h⟩ := Results.bind_eq_ok.mp h
  obtain ⟨missing, -, h⟩ := Results.bind_eq_ok.mp h
  cases h
  show overlaps.length = steps.count
  rw [Results.length_of_mapM ho, List.length_range]

theorem sound_value {catalog : Catalog} {v : Expr} {sort : Option Direction} {limit : Nat}
    {policy : Overflow} {e : ValueEdge}
    (h : ValueEdge.ofValue catalog v sort limit policy = .ok e) : (value e).Sound := by
  obtain ⟨source, -, h⟩ := Results.bind_eq_ok.mp h
  obtain ⟨missing, hm, h⟩ := Results.bind_eq_ok.mp h
  cases h
  exact missingKind_single hm

theorem sound_tuple (e : TupleEdge) : (tuple e).Sound := trivial

/-- How the kind of an edge is made, one way for each domain that an edge can have. -/
inductive Made (catalog : Catalog) (options : Options) (limit : Nat) (e : Edge) : EdgeKind → Prop
  | span {s : Span} {min max interval : Float} {edge : SpanEdge}
      (h : SpanEdge.ofSpan catalog s min max interval options.bucketLimit = .ok edge) :
      Made catalog options limit e (span edge)
  | set {value : Option Expr} {partitions : List Partition} {edge : SetEdge}
      (h : SetEdge.ofPartitions catalog value partitions = .ok edge) :
      Made catalog options limit e (set edge)
  | range {value : Expr} {min max interval : Float} {edge : RangeEdge}
      (h : RangeEdge.ofValue catalog value min max interval options.bucketLimit = .ok edge) :
      Made catalog options limit e (range edge)
  | dimension {fields : List String} {edge : TupleEdge}
      (h : TupleEdge.ofDimension catalog fields limit options.overflow = .ok edge) :
      Made catalog options limit e (tuple edge)
  | object {name : String} {sort : Option Direction} {edge : TupleEdge}
      (h : TupleEdge.ofObject catalog name sort limit options.overflow = .ok edge) :
      Made catalog options limit e (tuple edge)
  | value {v : Expr} {sort : Option Direction} {edge : ValueEdge}
      (hdomain : e.domain = .discovered sort)
      (h : ValueEdge.ofValue catalog v sort limit options.overflow = .ok edge) :
      Made catalog options limit e (value edge)

theorem made_of_kind {catalog : Catalog} {options : Options} {limit : Nat} {e : Edge}
    {kind : EdgeKind} (h : e.kind catalog options limit = .ok kind) :
    Made catalog options limit e kind := by
  have made {α : Type} {x : QueryResult α} {make : α → EdgeKind} (hx : make <$> x = .ok kind) :
      ∃ a, x = .ok a ∧ kind = make a := by
    cases x with
    | error _ => cases hx
    | ok a =>
        cases hx
        exact ⟨a, rfl, rfl⟩
  -- one case for each branch, those that fail among them
  unfold Edge.kind at h
  split at h
  next =>
      obtain ⟨edge, hedge, rfl⟩ := made h
      exact .span hedge
  next => cases h
  next =>
      obtain ⟨edge, hedge, rfl⟩ := made h
      exact .dimension hedge
  next =>
      obtain ⟨edge, hedge, rfl⟩ := made h
      exact .set hedge
  next =>
      obtain ⟨edge, hedge, rfl⟩ := made h
      exact .range hedge
  next hdomain _ =>
      split at h
      next =>
          obtain ⟨edge, hedge, rfl⟩ := made h
          exact .object hedge
      next =>
          obtain ⟨edge, hedge, rfl⟩ := made h
          exact .value hdomain hedge
  next => cases h

theorem sound_kind {catalog : Catalog} {options : Options} {limit : Nat} {e : Edge}
    {kind : EdgeKind} (h : e.kind catalog options limit = .ok kind) : kind.Sound := by
  cases made_of_kind h with
  | span hmade => exact sound_span hmade
  | set hmade => exact sound_set hmade
  | range hmade => exact sound_range hmade
  | dimension _ => exact sound_tuple _
  | object _ => exact sound_tuple _
  | value _ hmade => exact sound_value hmade

/-! ## Markers that fit -/

theorem fits_joins (filters : List Filter) (missing : Filter) :
    ∀ a ∈ Level.joins 0 filters ++ [(Marker.missing, AggKind.filter missing)], Level.Fits a := by
  intro a ha
  rcases List.mem_append.mp ha with ha | ha
  · obtain ⟨j, f, -, rfl⟩ := Level.mem_joins.mp ha
    rfl
  · rw [List.mem_singleton.mp ha]
    rfl

theorem fits_matchAndMissing {matched missing : AggKind} (hm : matched.shape = .several)
    (hn : missing.shape = .single) :
    ∀ a ∈ ([(.matched, matched), (.missing, missing)] : Level), Level.Fits a := by
  intro a ha
  simp only [List.mem_cons, List.not_mem_nil, or_false] at ha
  rcases ha with rfl | rfl
  · exact hm
  · exact hn

/-- **What an edge asks for is answered in the form that its marker promises.** -/
theorem fits_asks {kind : EdgeKind} (hs : kind.Sound) :
    ∀ level ∈ kind.asks, ∀ a ∈ level, Level.Fits a := by
  cases kind with
  | set e =>
      cases h : e.selection with
      | byValue source missing =>
          simp only [asks, h, List.mem_singleton, forall_eq]
          exact fits_matchAndMissing rfl rfl
      | byFilter filters missing =>
          simp only [asks, h, List.mem_singleton, forall_eq]
          exact fits_joins filters missing
  | range e =>
      simp only [asks, List.mem_singleton, forall_eq]
      intro a ha
      simp only [List.mem_cons, List.not_mem_nil, or_false] at ha
      rcases ha with rfl | rfl | rfl
      · rfl
      · rfl
      · exact hs.1
  | span e =>
      simp only [asks, List.mem_singleton, forall_eq]
      exact fits_joins e.overlaps e.missing
  | value e =>
      simp only [asks, List.mem_singleton, forall_eq]
      exact fits_matchAndMissing rfl hs.1
  | tuple e =>
      -- a level for each field, all of the same form
      intro level hl
      obtain ⟨f, -, rfl⟩ := List.mem_map.mp hl
      exact fits_matchAndMissing rfl rfl

theorem proper_joins {filters : List Filter} (hc : filters.length ≤ 2 ^ 64) (missing : Filter) :
    (Level.joins 0 filters ++ [(Marker.missing, AggKind.filter missing)]).Proper where
  nodup := by
    rw [List.map_append, List.nodup_append]
    refine ⟨Level.nodup_joins 0 filters, by simp, ?_⟩
    intro name hname other hother heq
    obtain ⟨a, ha, rfl⟩ := List.mem_map.mp hname
    obtain ⟨j, f, -, rfl⟩ := Level.mem_joins.mp ha
    have hother : other = "_missing" := by simpa [Marker.key] using hother
    -- the names of partitions and `_missing` differ in their second letter
    have hlist := congrArg String.toList (heq.trans hother)
    rw [Marker.key, Marker.toList_joinKey] at hlist
    exact absurd hlist (by simp)
  reads := by
    intro a ha
    rcases List.mem_append.mp ha with ha | ha
    · obtain ⟨j, f, hj, rfl⟩ := Level.mem_joins.mp ha
      have hlt : j < filters.length := (List.getElem?_eq_some_iff.mp hj).1
      exact Marker.ofName_joinKey (by omega)
    · rw [List.mem_singleton.mp ha]
      rfl
  fits := fits_joins filters missing

theorem proper_matchAndMissing {matched missing : AggKind} (hm : matched.shape = .several)
    (hn : missing.shape = .single) :
    Level.Proper [(.matched, matched), (.missing, missing)] where
  nodup := by simp [Marker.key]
  reads := by
    intro a ha
    simp only [List.mem_cons, List.not_mem_nil, or_false] at ha
    rcases ha with rfl | rfl
    · rfl
    · rfl
  fits := fits_matchAndMissing hm hn

/-- The names of what an edge asks for are read as their markers, when there are no more
partitions than words can count. -/
theorem proper_asks {kind : EdgeKind} (hs : kind.Sound) (hc : kind.partitionCount ≤ 2 ^ 64) :
    ∀ level ∈ kind.asks, level.Proper := by
  have hfits := fits_asks hs
  cases kind with
  | set e =>
      cases h : e.selection with
      | byValue source missing =>
          simp only [asks, h, List.mem_singleton, forall_eq]
          exact proper_matchAndMissing rfl rfl
      | byFilter filters missing =>
          simp only [asks, h, List.mem_singleton, forall_eq]
          simp only [Sound, h] at hs
          -- indices are read back from names while they fit 64 bits
          have hcount : filters.length ≤ 2 ^ 64 := by
            rw [hs]
            exact hc
          exact proper_joins hcount missing
  | range e =>
      simp only [asks, List.mem_singleton, forall_eq] at hfits ⊢
      refine ⟨by simp [Marker.key], ?_, hfits⟩
      intro a ha
      simp only [List.mem_cons, List.not_mem_nil, or_false] at ha
      rcases ha with rfl | rfl | rfl
      · rfl
      · rfl
      · rfl
  | span e =>
      simp only [asks, List.mem_singleton, forall_eq]
      have hcount : e.overlaps.length ≤ 2 ^ 64 := by
        rw [show e.overlaps.length = e.steps.count from hs]
        exact hc
      exact proper_joins hcount e.missing
  | value e =>
      simp only [asks, List.mem_singleton, forall_eq]
      exact proper_matchAndMissing rfl hs.1
  | tuple e =>
      intro level hl
      obtain ⟨f, -, rfl⟩ := List.mem_map.mp hl
      exact proper_matchAndMissing rfl rfl

/-! ## The scope of an edge -/

theorem stays_joins (filters : List Filter) (missing : Filter) :
    ∀ a ∈ Level.joins 0 filters ++ [(Marker.missing, AggKind.filter missing)], a.2.Stays := by
  intro a ha
  rcases List.mem_append.mp ha with ha | ha
  · obtain ⟨j, f, -, rfl⟩ := Level.mem_joins.mp ha
    trivial
  · rw [List.mem_singleton.mp ha]
    trivial

theorem stays_matchAndMissing {matched missing : AggKind} (hm : matched.Stays)
    (hn : missing.Stays) : ∀ a ∈ ([(.matched, matched), (.missing, missing)] : Level),
    a.2.Stays := by
  intro a ha
  simp only [List.mem_cons, List.not_mem_nil, or_false] at ha
  rcases ha with rfl | rfl
  · exact hm
  · exact hn

theorem stays_asks {kind : EdgeKind} (hs : kind.Sound) :
    ∀ level ∈ kind.asks, level ≠ [] ∧ ∀ a ∈ level, a.2.Stays := by
  cases kind with
  | set e =>
      cases h : e.selection with
      | byValue source missing =>
          simp only [asks, h, List.mem_singleton, forall_eq]
          exact ⟨by simp, stays_matchAndMissing trivial trivial⟩
      | byFilter filters missing =>
          simp only [asks, h, List.mem_singleton, forall_eq]
          exact ⟨by simp, stays_joins filters missing⟩
  | range e =>
      simp only [asks, List.mem_singleton, forall_eq]
      refine ⟨by simp, ?_⟩
      intro a ha
      simp only [List.mem_cons, List.not_mem_nil, or_false] at ha
      rcases ha with rfl | rfl | rfl
      · trivial
      · trivial
      · exact hs.2
  | span e =>
      simp only [asks, List.mem_singleton, forall_eq]
      exact ⟨by simp, stays_joins e.overlaps e.missing⟩
  | value e =>
      simp only [asks, List.mem_singleton, forall_eq]
      exact ⟨by simp, stays_matchAndMissing trivial hs.2⟩
  | tuple e =>
      intro level hl
      obtain ⟨f, -, rfl⟩ := List.mem_map.mp hl
      exact ⟨by simp, stays_matchAndMissing trivial trivial⟩

end EdgeKind

namespace Level

variable {levels : List Level} (hl : ∀ level ∈ levels, level ≠ [] ∧ ∀ a ∈ level, a.2.Stays)
  {inner : Aggs} {scope : String}

include hl

theorem legal_stack (h : Aggs.Legal scope inner) : Aggs.Legal scope (stack inner levels) := by
  induction levels with
  | nil => exact h
  | cons level levels ih =>
      obtain ⟨⟨-, hstays⟩, hrest⟩ := List.forall_mem_cons.mp hl
      show Aggs.Legal scope (around (stack inner levels) level)
      rw [Aggs.legal_iff]
      intro a ha
      obtain ⟨ask, hask, rfl⟩ := List.mem_map.mp ha
      -- no aggregation of the level is a step, so the scope below is the same
      have hkind := hstays ask hask
      refine ⟨hkind.legal scope, ?_⟩
      rw [hkind.scope_eq]
      exact ih hrest

theorem stack_ne_nil (h : inner ≠ []) : stack inner levels ≠ [] := by
  cases levels with
  | nil => exact h
  | cons level levels =>
      show around (stack inner levels) level ≠ []
      simpa [around] using (hl level List.mem_cons_self).1

theorem leaves_stack (h : inner ≠ []) {leaf : String × AggKind}
    (hleaf : leaf ∈ Aggs.leaves scope (stack inner levels)) : leaf ∈ Aggs.leaves scope inner := by
  induction levels with
  | nil => exact hleaf
  | cons level levels ih =>
      obtain ⟨⟨-, hstays⟩, hrest⟩ := List.forall_mem_cons.mp hl
      obtain ⟨a, ha, hleaf⟩ := Aggs.mem_leaves.mp hleaf
      obtain ⟨ask, hask, rfl⟩ := List.mem_map.mp ha
      have hleaf : leaf ∈ (Agg.node ask.2 (stack inner levels)).leaves scope := hleaf
      rw [Aggs.leaves_node (stack_ne_nil hrest h), (hstays ask hask).scope_eq] at hleaf
      exact ih hrest hleaf

/-- The tree is found within its levels, in the same scope. -/
theorem sits_stack : Aggs.Sits inner scope scope (stack inner levels) := by
  induction levels with
  | nil => exact .whole
  | cons level levels ih =>
      obtain ⟨⟨hne, hstays⟩, hrest⟩ := List.forall_mem_cons.mp hl
      obtain ⟨ask, hask⟩ := List.exists_mem_of_ne_nil level hne
      refine .inside (List.mem_map.mpr ⟨ask, hask, rfl⟩) ?_
      rw [(hstays ask hask).scope_eq]
      exact ih hrest

end Level

end Tabula
