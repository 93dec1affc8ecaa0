import Tabula.Proofs.Grouping.Levels
import Tabula.Proofs.Metrics.Selects

/-!
# The limits of a grouping

The limits of the options reach a request by different ways: through the edges that discover their
values (`EdgeKind.Within`), through the ranges, which are not cut when they had too many partitions
(`Steps.count_le`), and through the metrics that gather values (`MetricPlan.gathers_ofSelect`). In
the compiled tree each aggregation is reached by one of them, so that no edge gathers more than the
greatest limit that is granted (`terms_within`), and nothing has more buckets than one aggregation
may have (`buckets_within`).
-/

set_option autoImplicit false

namespace Tabula

/-! ## Options -/

namespace Options

variable {options : Options}

theorem limit_le {m : Nat} (h : options.maxLimit = some m) (requested : Option Nat) :
    options.limit requested ≤ m := by
  unfold limit
  rw [h]
  exact Nat.min_le_right _ _

theorem bucketLimit_of_some {m : Nat} (h : options.maxLimit = some m) :
    options.bucketLimit = m := by
  rw [bucketLimit, h, Option.getD_some]

theorem bucketLimit_of_none (h : options.maxLimit = none) : options.bucketLimit = 10000 := by
  rw [bucketLimit, h, Option.getD_none]

end Options

/-! ## Ranges -/

/-- **A range is cut only when it has no more partitions than the limit**, in any arithmetic: their
number is compared with the limit as the integer that it is. -/
theorem Steps.count_le {α : Type} [Scale α] {s : Steps α} {limit : Nat}
    (h : s.fault? limit = none) : s.count ≤ limit := by
  unfold fault? at h
  split at h
  next => cases h
  next =>
      split at h
      next => cases h
      next =>
          split at h
          next n hn =>
              split at h
              next => cases h
              next hle =>
                  rw [count, hn, Option.getD_some]
                  omega
          next => cases h

theorem Steps.count_ofFloats {min max interval : Float} {limit : Nat} {s : Steps Float}
    (h : Steps.ofFloats min max interval limit = .ok s) : s.count ≤ limit := by
  unfold Steps.ofFloats at h
  simp only at h
  split at h
  next hnone =>
      cases h
      exact count_le hnone
  next => cases h
  next => cases h
  next => cases h

/-! ## Edges -/

/-- The number of buckets of partitions among aggregations side by side. -/
def Aggs.joinCount (group : Aggs) : Nat := group.countP fun entry => isJoinName entry.1

theorem Aggs.joinCount_wrap {name : String} {kind : AggKind} {tree : Aggs}
    (hname : isJoinName name = false) : (tree.wrap name kind).joinCount = 0 := by
  rw [joinCount, wrap, List.countP_singleton, hname]
  rfl

namespace EdgeKind

/-- Whether an edge gathers a number of values, when it discovers them, and has no more partitions
than there may be buckets, when it cuts a range. -/
def Within (values buckets : Nat) : EdgeKind → Prop
  | set _ => True
  | range e => e.steps.count ≤ buckets
  | span e => e.steps.count ≤ buckets
  | value e => e.limit = values
  | tuple e => e.limit = values

theorem within_kind {catalog : Catalog} {options : Options} {limit : Nat} {e : Edge}
    {kind : EdgeKind} (h : e.kind catalog options limit = .ok kind) :
    kind.Within limit options.bucketLimit := by
  -- ranges are refused beyond the limit, discovered partitions are cut off at it
  cases made_of_kind h with
  | span hmade =>
      obtain ⟨steps, hsteps, hmade⟩ := Results.bind_eq_ok.mp hmade
      obtain ⟨overlaps, -, hmade⟩ := Results.bind_eq_ok.mp hmade
      obtain ⟨missing, -, hmade⟩ := Results.bind_eq_ok.mp hmade
      cases hmade
      exact Steps.count_ofFloats hsteps
  | set _ => trivial
  | range hmade =>
      obtain ⟨steps, hsteps, hmade⟩ := Results.bind_eq_ok.mp hmade
      obtain ⟨source, -, hmade⟩ := Results.bind_eq_ok.mp hmade
      obtain ⟨missing, -, hmade⟩ := Results.bind_eq_ok.mp hmade
      cases hmade
      exact Steps.count_ofFloats hsteps
  | dimension hmade =>
      obtain ⟨fields, -, hmade⟩ := Results.bind_eq_ok.mp hmade
      cases hmade
      rfl
  | object hmade =>
      unfold TupleEdge.ofObject at hmade
      split at hmade
      next => cases hmade
      next =>
          cases hmade
          rfl
  | value _ hmade =>
      obtain ⟨source, -, hmade⟩ := Results.bind_eq_ok.mp hmade
      obtain ⟨missing, -, hmade⟩ := Results.bind_eq_ok.mp hmade
      cases hmade
      rfl

section Asks

variable {kind : EdgeKind} {asked : Level} {marker : Marker} {asks : AggKind}

/-- What is answered by a list of buckets asks for the values or the partitions of its edge, or for
what lies outside of them. -/
theorem several_of_asks (hs : kind.Sound) (hasked : asked ∈ kind.asks)
    (h : (marker, asks) ∈ asked) (hseveral : asks.shape = .several) :
    marker = .matched ∨ marker = .other := by
  have hfits := fits_asks hs asked hasked _ h
  cases marker with
  | matched => exact Or.inl rfl
  | other => exact Or.inr rfl
  | missing | join _ => exact absurd (hfits.symm.trans hseveral) (by decide)
  | filter | nested | payload => exact hfits.elim

theorem eq_matched {matched missing : AggKind} (hmarker : marker = .matched ∨ marker = .other)
    (h : (marker, asks) ∈ ([(.matched, matched), (.missing, missing)] : Level)) :
    asks = matched := by
  rcases hmarker with rfl | rfl
  · simpa using h
  · simp at h

theorem not_mem_joins (hmarker : marker = .matched ∨ marker = .other) {filters : List Filter}
    {missing : Filter} :
    (marker, asks) ∉ Level.joins 0 filters ++ [(Marker.missing, AggKind.filter missing)] := by
  rcases hmarker with rfl | rfl
  · simp [Level.mem_joins]
  · simp [Level.mem_joins]

variable {values buckets : Nat} (hs : kind.Sound) (hw : kind.Within values buckets)
  (hasked : asked ∈ kind.asks)

include hs hw hasked

/-- An edge gathers as many values as it is limited to, or those that its set lists. -/
theorem size_of_asks {source : Source} {size : Option Nat} {only : Option (List Json)}
    {order : Option Direction} (h : (marker, .terms source size only order) ∈ asked) :
    (∃ e, kind = .set e ∧ size = some (max e.partitions.length 1)) ∨ size = some values := by
  -- terms are asked for under a name of several buckets
  have hmarker := several_of_asks hs hasked h rfl
  cases kind with
  | set e =>
      cases hselection : e.selection with
      | byValue _ _ =>
          simp only [EdgeKind.asks, hselection, List.mem_singleton] at hasked
          cases eq_matched hmarker (hasked ▸ h)
          exact Or.inl ⟨e, rfl, rfl⟩
      | byFilter _ _ =>
          simp only [EdgeKind.asks, hselection, List.mem_singleton] at hasked
          exact absurd (hasked ▸ h) (not_mem_joins hmarker)
  | range e =>
      rw [List.mem_singleton.mp hasked] at h
      rcases hmarker with rfl | rfl
      · simp at h
      · simp at h
  | span e => exact absurd (List.mem_singleton.mp hasked ▸ h) (not_mem_joins hmarker)
  | value e =>
      cases eq_matched hmarker (List.mem_singleton.mp hasked ▸ h)
      exact Or.inr (congrArg some hw)
  | tuple e =>
      obtain ⟨f, -, rfl⟩ := List.mem_map.mp hasked
      cases eq_matched hmarker h
      exact Or.inr (congrArg some hw)

/-- An edge asks for no more intervals than there may be buckets, but for those out of its range. -/
theorem length_of_asks {source : Source} {intervals : List (Interval Float)}
    (h : (marker, .range source intervals) ∈ asked) (hname : marker.key = "_match") :
    intervals.length ≤ buckets := by
  have hmarker := several_of_asks hs hasked h rfl
  cases kind with
  | set e =>
      cases hselection : e.selection with
      | byValue _ _ =>
          simp only [EdgeKind.asks, hselection, List.mem_singleton] at hasked
          cases eq_matched hmarker (hasked ▸ h)
      | byFilter _ _ =>
          simp only [EdgeKind.asks, hselection, List.mem_singleton] at hasked
          exact absurd (hasked ▸ h) (not_mem_joins hmarker)
  | range e =>
      rw [List.mem_singleton.mp hasked] at h
      rcases hmarker with rfl | rfl
      · simp only [List.mem_cons, Prod.mk.injEq, AggKind.range.injEq, true_and, reduceCtorEq,
          false_and, List.not_mem_nil, or_false] at h
        rw [h.2, RangeEdge.inside, List.length_map, List.length_range]
        exact hw
      · exact absurd hname (by decide)
  | span e => exact absurd (List.mem_singleton.mp hasked ▸ h) (not_mem_joins hmarker)
  | value e => cases eq_matched hmarker (List.mem_singleton.mp hasked ▸ h)
  | tuple e =>
      obtain ⟨f, -, rfl⟩ := List.mem_map.mp hasked
      cases eq_matched hmarker h

end Asks

/-- An edge over spans asks for no more partitions than there may be buckets. -/
theorem joinCount_of_asks {values buckets : Nat} {e : SpanEdge} (hs : (span e).Sound)
    (hw : (span e).Within values buckets) {asked : Level} (hasked : asked ∈ (span e).asks)
    (below : Aggs) : (asked.around below).joinCount ≤ buckets := by
  have hmissing : Aggs.isJoinName Marker.missing.key = false := by decide
  have hjoins : ((Level.joins 0 e.overlaps).around below).joinCount ≤ e.overlaps.length := by
    rw [Aggs.joinCount]
    refine List.countP_le_length.trans_eq ?_
    rw [Level.around, List.length_map, Level.length_joins]
  rw [List.mem_singleton.mp hasked, Aggs.joinCount, Level.around, List.map_append,
    List.countP_append, List.map_singleton, List.countP_singleton, hmissing]
  exact hjoins.trans (le_of_eq_of_le hs hw)

end EdgeKind

/-! ## Metrics -/

/-- Whether a kind gathers a number of values, if it gathers values at all, and cuts no range. -/
def AggKind.Gathers (n : Nat) : AggKind → Prop
  | terms _ size _ _ => size = some n
  | range _ _ => False
  | _ => True

namespace AggKind

variable {n : Nat} {kind : AggKind}

theorem Reads.gathers {column : String} (h : kind.Reads column) : kind.Gathers n := by
  cases kind with
  | terms _ _ _ _ | range _ _ => exact h.elim
  | _ => trivial

theorem Joined.gathers {found : AggKind} (h : kind.Joined found) (hk : kind.Gathers n) :
    found.Gathers n := by
  rcases h with rfl | ⟨source, percents, more, rfl, rfl⟩
  · exact hk
  · trivial

theorem gathers_step (outer inner : String) : (Aggs.step outer inner).Gathers n := by
  unfold Aggs.step
  split
  next => trivial
  next => trivial

end AggKind

namespace MetricPlan

variable {catalog : Catalog} {n : Nat} {s : Select} {depth : String} {plan : MetricPlan}

theorem gathers_one {a : Addition} {pull : Pull} (h : a.kind.Gathers n) :
    ∀ b ∈ ({ additions := [a], pull } : MetricPlan).additions, b.kind.Gathers n := by
  intro b hb
  rw [List.mem_singleton.mp hb]
  exact h

theorem gathers_ofTuple {terms : List Expr} (h : ofTuple catalog s depth terms = .ok plan) :
    ∀ a ∈ plan.additions, a.kind.Gathers n := by
  unfold ofTuple at h
  split at h
  next =>
      cases h
      simp
  next =>
      obtain ⟨nulls, -, h⟩ := Results.bind_eq_ok.mp h
      obtain ⟨tuple, -, h⟩ := Results.bind_eq_ok.mp h
      cases h
      exact gathers_one trivial
  next =>
      obtain ⟨nulls, -, h⟩ := Results.bind_eq_ok.mp h
      obtain ⟨tuple, -, h⟩ := Results.bind_eq_ok.mp h
      cases h
      exact gathers_one trivial
  next => cases h

theorem gathers_ofScript {queryDepth : String} {source : Source}
    (h : ofScript queryDepth n s depth source = .ok plan) :
    ∀ a ∈ plan.additions, a.kind.Gathers n := by
  unfold ofScript at h
  cases ha : s.aggregate with
  | count =>
      rw [ha] at h
      cases h
      exact gathers_one trivial
  | median | percentile =>
      rw [ha] at h
      obtain ⟨percent, -, h⟩ := Results.bind_eq_ok.mp h
      cases h
      exact gathers_one trivial
  | stats =>
      rw [ha] at h
      cases h
      intro a ha
      simp only [statsPlan, List.mem_cons, List.not_mem_nil, or_false] at ha
      rcases ha with rfl | rfl
      · trivial
      · trivial
  | union | countValues =>
      rw [ha] at h
      cases h
      exact gathers_one rfl
  | plain =>
      rw [ha] at h
      cases h
  | _ =>
      rw [ha] at h
      cases h
      exact gathers_one trivial

/-- **A select gathers as many values as it is limited to**, if it gathers values at all. -/
theorem gathers_ofSelect (h : ofSelect catalog n s = .ok plan) :
    ∀ a ∈ plan.additions, a.kind.Gathers n := by
  rcases ofSelect_cases h with rfl | ⟨name, hv, hfield⟩ | ⟨-, h⟩
  · simp [ofDocuments]
  · -- what is computed from a column gathers no values by terms
    intro a ha
    have hplaces := (sane_ofField hv hfield).placed a ha
    unfold Select.Places at hplaces
    rw [hv] at hplaces
    obtain ⟨c, -, -, hreads⟩ := hplaces
    exact hreads.gathers
  · obtain ⟨depth, -, h⟩ := Results.bind_eq_ok.mp h
    split at h
    next => exact gathers_ofTuple h
    next =>
        obtain ⟨script, -, h⟩ := Results.bind_eq_ok.mp h
        exact gathers_ofScript h

end MetricPlan

/-! ## Trees of metrics -/

theorem Aggs.eq_nil_of_beside {group : Aggs} {level outer : Nat}
    (h : Beside group level outer []) : group = [] := by
  cases h with
  | whole => rfl
  | inside hmem _ => cases hmem

/-- All that stands in the tree of metrics gathers as many values as the metrics do. -/
theorem Addition.gathers_of_beside {n outer level : Nat} {queryDepth : String}
    {additions : List Addition} (h : ∀ a ∈ additions, a.kind.Gathers n) {group : Aggs}
    (hgroup : Aggs.Beside group level outer (additions.foldl (apply queryDepth) []))
    {name : String} {kind : AggKind} {below : Aggs} (hmem : (name, .node kind below) ∈ group) :
    kind.Gathers n := by
  -- a metric is an end of the tree, or the only one behind a step
  cases hgroup with
  | whole =>
      obtain ⟨a, ha, found, hjoined, heq⟩ := mem_metrics hmem
      unfold placed at heq
      split at heq
      next =>
          cases heq
          exact hjoined.gathers (h a ha)
      next =>
          cases heq
          exact AggKind.gathers_step _ _
  | inside hentry hgroup =>
      obtain ⟨a, ha, found, hjoined, heq⟩ := mem_metrics hentry
      unfold placed at heq
      split at heq
      next =>
          cases heq
          rw [Aggs.eq_nil_of_beside hgroup] at hmem
          cases hmem
      next =>
          cases heq
          cases hgroup with
          | whole =>
              cases List.mem_singleton.mp hmem
              exact hjoined.gathers (h a ha)
          | inside hleaf hgroup =>
              cases List.mem_singleton.mp hleaf
              rw [Aggs.eq_nil_of_beside hgroup] at hmem
              cases hmem

/-! ## Compiled groupings -/

namespace GroupingPlan

/-- Whether every aggregation of values says how many it gathers, and these are not too many, but
for that of a set, which gathers the values that the set lists. -/
def TermsWithin (n : Nat) (p : GroupingPlan) : Prop :=
  ∀ group level, Aggs.Beside group level 0 p.tree →
    ∀ name source size only order below,
      (name, .node (.terms source size only order) below) ∈ group →
        (∃ d ∈ p.decoders, d.Owns level
            ∧ ∃ e, d.kind = .set e ∧ size = some (max e.partitions.length 1))
          ∨ ∃ k ≤ n, size = some k

/-- Whether nothing has more buckets than one aggregation may have: the partitions of a range, as
intervals or as filters, and the values of a union, which stand where no edge does. -/
structure BucketsWithin (n : Nat) (p : GroupingPlan) : Prop where
  ranges : ∀ group level, Aggs.Beside group level 0 p.tree →
    ∀ source intervals below, ("_match", .node (.range source intervals) below) ∈ group →
      intervals.length ≤ n
  joins : ∀ group level, Aggs.Beside group level 0 p.tree →
    ∀ d ∈ p.decoders, d.Owns level → (∃ e, d.kind = .span e) → group.joinCount ≤ n
  unions : ∀ group level, Aggs.Beside group level 0 p.tree → (∀ d ∈ p.decoders, ¬ d.Owns level) →
    ∀ name source size only order below,
      (name, .node (.terms source size only order) below) ∈ group → ∃ k ≤ n, size = some k

end GroupingPlan

namespace Grouping

variable {catalog : Catalog} {options : Options} {q : Query}

namespace Pieces

variable {pieces : Pieces} (h : ofQuery catalog options q = .ok pieces)

include h

theorem within_decoders :
    ∀ d ∈ pieces.decoders, ∃ requested,
      d.kind.Within (options.limit (some requested)) options.bucketLimit := by
  refine decoders_of_ofQuery h (fun _ _ => Iff.rfl) ?_
  intro requested index e d hd
  obtain ⟨depth, -, hd⟩ := Results.bind_eq_ok.mp hd
  obtain ⟨kind, hkind, hd⟩ := Results.bind_eq_ok.mp hd
  cases hd
  exact ⟨requested, EdgeKind.within_kind hkind⟩

/-- The metrics of a query gather as many values as one aggregation may have buckets. -/
theorem gathers_additions : ∀ a ∈ pieces.additions, a.kind.Gathers options.bucketLimit := by
  obtain ⟨-, -, -, hplans, -⟩ := ofQuery_eq_ok h
  intro a ha
  obtain ⟨plan, hplan, ha⟩ := List.mem_flatMap.mp ha
  exact Results.forall_mem_of_mapM hplans
    (fun s _ plan hof => MetricPlan.gathers_ofSelect hof) plan hplan a ha

end Pieces

section Plans

variable {plan : GroupingPlan} (h : compile catalog options q = .ok plan)

include h

/-- The decoders of a plan are those of the pieces of its query. -/
theorem exists_pieces : ∃ pieces, Pieces.ofQuery catalog options q = .ok pieces
    ∧ plan.decoders = pieces.decoders := by
  obtain ⟨pieces, tree, hp, -, rfl⟩ := compile_eq_ok h
  exact ⟨pieces, hp, rfl⟩

/-- **Every aggregation of a compiled tree** is asked for by the edge that owns its level, or it
gathers as many values as one aggregation may have buckets, if it gathers values at all. -/
theorem asked_or_gathers {group : Aggs} {level : Nat}
    (hgroup : Aggs.Beside group level 0 plan.tree) {name : String} {kind : AggKind} {below : Aggs}
    (hmem : (name, .node kind below) ∈ group) :
    (∃ d ∈ plan.decoders, d.Owns level
        ∧ ∃ asked ∈ d.kind.asks, ∃ ask ∈ asked, ask.1.key = name ∧ ask.2 = kind)
      ∨ kind.Gathers options.bucketLimit := by
  obtain ⟨pieces, hp, hdecoders⟩ := exists_pieces h
  -- it is what an edge asks for, a wrapper, or a metric
  cases spot_of_compile hp h hgroup with
  | edge inner hd hk hlevel =>
      obtain ⟨ask, hask, heq⟩ := List.mem_map.mp hmem
      cases heq
      refine Or.inl ⟨_, ?_, Decoder.owns_of_asks hk hlevel, _, List.mem_of_getElem? hk, ask, hask,
        rfl, rfl⟩
      rw [hdecoders]
      exact pieces.perm_outer.mem_iff.mp hd
  | step outer scope inner =>
      cases List.mem_singleton.mp hmem
      exact Or.inr (AggKind.gathers_step outer scope)
  | condition filter inner =>
      cases List.mem_singleton.mp hmem
      exact Or.inr trivial
  | metrics hmetrics =>
      exact Or.inr (Addition.gathers_of_beside (Pieces.gathers_additions hp) hmetrics hmem)

/-- The edges of a plan are sound and within limits that the options grant. -/
theorem sound_within {d : Decoder} (hd : d ∈ plan.decoders) :
    d.kind.Sound ∧ ∃ requested,
      d.kind.Within (options.limit (some requested)) options.bucketLimit := by
  obtain ⟨pieces, hp, hdecoders⟩ := exists_pieces h
  rw [hdecoders] at hd
  exact ⟨Pieces.sound_decoders hp d hd, Pieces.within_decoders hp d hd⟩

/-- **No aggregation gathers more values than the greatest limit that is granted**, but for those
of the sets. -/
theorem terms_within {m : Nat} (hm : options.maxLimit = some m) : plan.TermsWithin m := by
  intro group level hgroup name source size only order below hmem
  rcases asked_or_gathers h hgroup hmem with
    ⟨d, hd, hown, asked, hasked, ⟨marker, kind⟩, hask, -, rfl⟩ | hsize
  · obtain ⟨hsound, requested, hwithin⟩ := sound_within h hd
    rcases EdgeKind.size_of_asks hsound hwithin hasked hask with hset | hsize
    · exact Or.inl ⟨d, hd, hown, hset⟩
    · exact Or.inr ⟨_, Options.limit_le hm (some requested), hsize⟩
  · exact Or.inr ⟨_, (Options.bucketLimit_of_some hm).le, hsize⟩

/-- **Nothing has more buckets than one aggregation may have**, whether the options grant a greatest
limit or not. -/
theorem buckets_within : plan.BucketsWithin options.bucketLimit where
  ranges := by
    intro group level hgroup source intervals below hmem
    rcases asked_or_gathers h hgroup hmem with
      ⟨d, hd, -, asked, hasked, ⟨marker, kind⟩, hask, hname, rfl⟩ | hrange
    · obtain ⟨hsound, requested, hwithin⟩ := sound_within h hd
      exact EdgeKind.length_of_asks hsound hwithin hasked hask hname
    · exact hrange.elim
  joins := by
    rintro group level hgroup d hd hown ⟨e, hspan⟩
    obtain ⟨pieces, hp, hdecoders⟩ := exists_pieces h
    have houter : d ∈ pieces.outer := pieces.perm_outer.mem_iff.mpr (hdecoders ▸ hd)
    cases spot_of_compile hp h hgroup with
    | edge below hd' hk hlevel =>
        -- the level has no other owner, so it is the span's own level
        obtain rfl := pieces.tiled_outer.owner_unique houter hd' hown
          (Decoder.owns_of_asks hk hlevel)
        obtain ⟨hsound, requested, hwithin⟩ := sound_within h hd
        rw [hspan] at hsound hwithin hk
        exact EdgeKind.joinCount_of_asks hsound hwithin (List.mem_of_getElem? hk) below
    | step outer scope below => exact (Aggs.joinCount_wrap (by decide)).le.trans (Nat.zero_le _)
    | condition filter below => exact (Aggs.joinCount_wrap (by decide)).le.trans (Nat.zero_le _)
    | metrics hmetrics =>
        -- metrics stand below the levels of all decoders
        have hlt := pieces.tiled_outer.lt_of_owns houter hown
        have hle := hmetrics.le
        omega
  unions := by
    intro group level hgroup hunowned name source size only order below hmem
    rcases asked_or_gathers h hgroup hmem with ⟨d, hd, hown, -⟩ | hsize
    · exact absurd hown (hunowned d hd)
    · exact ⟨_, Nat.le_refl _, hsize⟩

end Plans

end Grouping

end Tabula
