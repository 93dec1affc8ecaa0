import Mathlib
import Tabula.Grouping.Plan
import Tabula.Proofs.Metrics.Selects

/-!
# Metrics of the same name

The selects of a query put their metrics into one tree under names of their own choice, and the
later metric of a name replaces the earlier one. Pulls are `Undisturbed` when the tree still holds
what was placed for each of them. That is a property of the whole fold; it comes down to a
comparison of any two metrics that go by one name (`Compatible`): both have to be the same in the
same nested documents, or percents of the same source that are joined. Statistics of a field with
several types are not.
-/

set_option autoImplicit false

namespace Tabula

/-! ## What the tree holds for an addition -/

/-- Whether what is found answers what was asked for: it is the same, or percentiles of the same
source with all the percents among theirs. -/
def AggKind.Answers (asked found : AggKind) : Prop :=
  found = asked ∨ ∃ source percents more, asked = .percentiles source percents
    ∧ found = .percentiles source more ∧ ∀ percent ∈ percents, hasPercent more percent

/-- Whether the tree holds what an addition asks for, in the nested documents that it means. -/
def Addition.Held (queryDepth : String) (aggs : Aggs) (a : Addition) : Prop :=
  ∃ kind, aggs.get? a.name = some (placed queryDepth (a.depth queryDepth) kind)
    ∧ a.kind.Answers kind

/-- Whether one addition may go by the name of another: percents join percents of the same
source, and any other metric has to answer for the one that it replaces. -/
def Addition.Agrees : Addition → Addition → Prop
  | metric p, metric q => p.depth = q.depth ∧ p.kind.Answers q.kind
  | percent _ source _, percent _ other _ => source = other
  | _, _ => False

namespace MetricPlan

def allAdditions (plans : List MetricPlan) : List Addition := plans.flatMap (·.additions)

def metrics (queryDepth : String) (plans : List MetricPlan) : Aggs :=
  (allAdditions plans).foldl (Addition.apply queryDepth) []

/-- Whether no metric disturbs another. -/
structure Undisturbed (queryDepth : String) (plans : List MetricPlan) : Prop where
  /-- What was placed for a pull is where the pull reads. -/
  held : ∀ plan ∈ plans, ∀ need ∈ plan.pull.needs, ∀ a ∈ plan.additions,
    a.Serves queryDepth need → a.Held queryDepth (metrics queryDepth plans)
  /-- Where nothing was placed for a pull, nothing else is. -/
  free : ∀ plan ∈ plans, ∀ need ∈ plan.pull.needs,
    (∃ a ∈ plan.additions, a.Serves queryDepth need)
      ∨ ∀ key ∈ need.keys.head?, (metrics queryDepth plans).get? key = none

/-- Whether all metrics may stand in one tree, two by two. -/
structure Compatible (plans : List MetricPlan) : Prop where
  agree : ∀ a ∈ allAdditions plans, ∀ b ∈ allAdditions plans, a.name = b.name → a.Agrees b
  /-- No metric is named like what a select reads that places none. -/
  free : ∀ plan ∈ plans, plan.additions = [] → ∀ need ∈ plan.pull.needs,
    ∀ a ∈ allAdditions plans, a.name ∉ need.keys.head?

theorem mem_allAdditions {plans : List MetricPlan} {a : Addition} :
    a ∈ allAdditions plans ↔ ∃ plan ∈ plans, a ∈ plan.additions :=
  List.mem_flatMap

end MetricPlan

/-! ## Answers -/

namespace AggKind.Answers

theorem refl (kind : AggKind) : kind.Answers kind := Or.inl rfl

theorem of_percentiles {source : Source} {percents : List Float} {found : AggKind}
    (h : (AggKind.percentiles source percents).Answers found) :
    ∃ more, found = .percentiles source more := by
  rcases h with rfl | ⟨_, _, more, heq, rfl, -⟩
  · exact ⟨percents, rfl⟩
  · cases heq
    exact ⟨more, rfl⟩

theorem of_found_percentiles {asked : AggKind} {source : Source} {more : List Float}
    (h : asked.Answers (.percentiles source more)) :
    ∃ percents, asked = .percentiles source percents := by
  rcases h with rfl | ⟨_, percents, _, rfl, heq, -⟩
  · exact ⟨more, rfl⟩
  · cases heq
    exact ⟨percents, rfl⟩

theorem single_iff {source : Source} {percent : Float} {more : List Float} :
    (AggKind.percentiles source [percent]).Answers (.percentiles source more)
      ↔ hasPercent more percent := by
  constructor
  · rintro (heq | ⟨_, _, _, hasked, hfound, hall⟩)
    · cases heq
      simp [hasPercent]
    · cases hasked
      cases hfound
      exact hall percent List.mem_cons_self
  · intro h
    refine Or.inr ⟨source, [percent], more, rfl, rfl, ?_⟩
    intro p hp
    rw [List.mem_singleton.mp hp]
    exact h

end AggKind.Answers

theorem hasPercent_single {p q : Float} :
    hasPercent [p] q ↔ Double.orderKey p = Double.orderKey q := by
  simp [hasPercent]

def AggKind.Single (kind : AggKind) : Prop :=
  ∀ source percents, kind = .percentiles source percents → ∃ percent, percents = [percent]

/-- What is found for two kinds lets one answer for the other, when no percents are joined. -/
theorem AggKind.Answers.both {asked other found : AggKind} (ha : asked.Answers found)
    (ho : other.Answers found) (hasked : asked.Single) (hother : other.Single)
    (hfound : found.Single) : asked.Answers other := by
  rcases ho with rfl | ⟨source, percents, more, rfl, rfl, hmore⟩
  · exact ha
  · obtain ⟨r, rfl⟩ := hfound _ _ rfl
    obtain ⟨q, rfl⟩ := hother _ _ rfl
    rcases ha with rfl | ⟨_, ps, _, rfl, heq, hps⟩
    · have hq : Double.orderKey r = Double.orderKey q :=
        hasPercent_single.mp (hmore q List.mem_cons_self)
      exact single_iff.mpr (hasPercent_single.mpr hq.symm)
    · cases heq
      obtain ⟨p, rfl⟩ := hasked _ _ rfl
      have hp : Double.orderKey r = Double.orderKey p :=
        hasPercent_single.mp (hps p List.mem_cons_self)
      have hq : Double.orderKey r = Double.orderKey q :=
        hasPercent_single.mp (hmore q List.mem_cons_self)
      exact single_iff.mpr (hasPercent_single.mpr (hq.symm.trans hp))

/-! ## Metrics tell where they are placed -/

theorem Aggs.step_injective {outer inner inner' : String}
    (h : Aggs.step outer inner = Aggs.step outer inner') : inner = inner' := by
  rw [← Aggs.scope_step outer inner, h, Aggs.scope_step]

theorem placed_injective {queryDepth depth depth' : String} {kind kind' : AggKind}
    (h : placed queryDepth depth kind = placed queryDepth depth' kind') :
    depth = depth' ∧ kind = kind' := by
  unfold placed at h
  split at h
  next hd =>
      split at h
      next hd' =>
          injection h with hkind
          exact ⟨hd.trans hd'.symm, hkind⟩
      next =>
          injection h with _ hbelow
          cases hbelow
  next =>
      split at h
      next =>
          injection h with _ hbelow
          cases hbelow
      next =>
          injection h with hstep hbelow
          refine ⟨Aggs.step_injective hstep, ?_⟩
          simpa [Agg.leaf] using hbelow

/-! ## Adding metrics that agree -/

section Adding

variable {queryDepth : String} {additions : List Addition} {aggs : Aggs} {a b : Addition}

namespace Addition

theorem get?_apply_percent (name : String) (source : Source) (percent : Float) :
    ((Addition.percent name source percent).apply queryDepth aggs).get? name
      = some (withPercent source percent (aggs.get? name)) := by
  have hname : (Addition.percent name source percent).name = name := rfl
  rw [get?_apply, if_pos hname]
  rfl

/-- What percents of a source make of percentiles of that source. -/
theorem withPercent_percentiles (source : Source) (percent : Float) (percents : List Float) :
    ∃ more, withPercent source percent (some (.leaf (.percentiles source percents)))
        = .leaf (.percentiles source more)
      ∧ hasPercent more percent ∧ ∀ p, hasPercent percents p → hasPercent more p := by
  unfold withPercent Agg.leaf
  simp only
  split
  next hhas => exact ⟨percents, rfl, hhas, fun _ hp => hp⟩
  next =>
      refine ⟨percents ++ [percent], rfl, ?_, ?_⟩
      · simp [hasPercent]
      · intro p hp
        simp only [hasPercent, List.any_append, Bool.or_eq_true] at hp ⊢
        exact Or.inl hp

/-- What is held for percents at the query path are percentiles of their source. -/
theorem Held.percentiles {name : String} {source : Source} {percent : Float}
    (h : (Addition.percent name source percent).Held queryDepth aggs) :
    ∃ percents, aggs.get? name = some (.leaf (.percentiles source percents))
      ∧ hasPercent percents percent := by
  obtain ⟨kind, hget, hanswers⟩ := h
  obtain ⟨percents, rfl⟩ := hanswers.of_percentiles
  refine ⟨percents, ?_, AggKind.Answers.single_iff.mp hanswers⟩
  rw [← placed_self queryDepth]
  exact hget

theorem held_percent {name : String} {source : Source} {percent : Float}
    {percents : List Float} (hget : aggs.get? name = some (.leaf (.percentiles source percents)))
    (hhas : hasPercent percents percent) :
    (Addition.percent name source percent).Held queryDepth aggs :=
  ⟨.percentiles source percents, by rw [depth, placed_self]; exact hget,
    AggKind.Answers.single_iff.mpr hhas⟩

/-- **One addition leaves another as it is**, when they have different names or agree. -/
theorem Held.apply (ha : a.Held queryDepth aggs) (h : a.name = b.name → a.Agrees b) :
    a.Held queryDepth (b.apply queryDepth aggs) := by
  by_cases hname : b.name = a.name
  · have hagrees := h hname.symm
    cases a with
    | metric p =>
        cases b with
        | percent => exact hagrees.elim
        | metric q =>
            obtain ⟨hdepth, hanswers⟩ := hagrees
            refine ⟨q.kind, ?_, hanswers⟩
            rw [get?_apply, if_pos hname]
            exact congrArg (fun d => some (placed queryDepth d q.kind)) hdepth.symm
    | percent name source p =>
        cases b with
        | metric => exact hagrees.elim
        | percent other source' q =>
            obtain rfl : source = source' := hagrees
            obtain rfl : other = name := hname
            -- joining keeps the percents that are there
            obtain ⟨percents, hget, hhas⟩ := ha.percentiles
            obtain ⟨more, heq, -, hmore⟩ := withPercent_percentiles source q percents
            refine held_percent ?_ (hmore p hhas)
            rw [get?_apply_percent, hget, heq]
  · obtain ⟨kind, hget, hanswers⟩ := ha
    refine ⟨kind, ?_, hanswers⟩
    rw [get?_apply, if_neg hname]
    exact hget

/-- An addition holds right after it is made, if what percents join agrees with them. -/
theorem held_apply_self
    (h : ∀ entry, aggs.get? b.name = some entry → ∃ a : Addition, a.Held queryDepth aggs
      ∧ a.name = b.name ∧ a.Agrees b) : b.Held queryDepth (b.apply queryDepth aggs) := by
  cases b with
  | metric p =>
      refine ⟨p.kind, ?_, AggKind.Answers.refl _⟩
      rw [get?_apply, if_pos rfl]
      rfl
  | percent name source p =>
      cases hget : aggs.get? name with
      | none =>
          have hnew : ((Addition.percent name source p).apply queryDepth aggs).get? name
              = some (.leaf (.percentiles source [p])) := by
            rw [get?_apply_percent, hget]
            rfl
          exact held_percent hnew (by simp [hasPercent])
      | some entry =>
          -- what stands under the name came from percents of the same source
          obtain ⟨a, ha, hname, hagrees⟩ := h entry hget
          cases a with
          | metric => exact hagrees.elim
          | percent other source' q =>
              obtain rfl : source' = source := hagrees
              obtain rfl : other = name := hname
              obtain ⟨percents, hold, -⟩ := ha.percentiles
              obtain ⟨more, heq, hhas, -⟩ := withPercent_percentiles source' p percents
              refine held_percent ?_ hhas
              rw [get?_apply_percent, hold, heq]

/-- **Additions that agree all hold in the end.** -/
theorem held_foldl
    (h : ∀ a ∈ additions, ∀ b ∈ additions, a.name = b.name → a.Agrees b) :
    ∀ a ∈ additions, a.Held queryDepth (additions.foldl (apply queryDepth) []) := by
  induction additions using List.reverseRecOn with
  | nil => simp
  | append_singleton done b ih =>
      have hb : b ∈ done ++ [b] := by simp
      have hdone : ∀ a ∈ done, a ∈ done ++ [b] := fun a ha => List.mem_append_left _ ha
      have hheld := ih fun a ha c hc => h a (hdone a ha) c (hdone c hc)
      rw [List.foldl_append, List.foldl_cons, List.foldl_nil]
      intro a ha
      rcases List.mem_append.mp ha with ha | ha
      · exact (hheld a ha).apply (h a (hdone a ha) b hb)
      · rw [List.mem_singleton.mp ha]
        refine held_apply_self fun entry hget => ?_
        -- what is there under the name goes back to an earlier addition
        obtain ⟨c, hc, _, _, heq⟩ := mem_metrics (Aggs.mem_of_get? hget)
        have hname : c.name = b.name := (congrArg Prod.fst heq).symm
        exact ⟨c, hheld c hc, hname, h c (hdone c hc) b hb hname⟩

/-- The tree has no metric of a name that no addition has. -/
theorem get?_foldl_eq_none {name : String} :
    (additions.foldl (apply queryDepth) []).get? name = none
      ↔ ∀ a ∈ additions, a.name ≠ name := by
  induction additions using List.reverseRecOn with
  | nil => simp [Aggs.get?]
  | append_singleton done b ih =>
      rw [List.foldl_append, List.foldl_cons, List.foldl_nil, get?_apply]
      by_cases hname : b.name = name
      · simp [hname]
      · simp [hname, ih, or_imp, forall_and]

end Addition

end Adding

/-! ## Metrics that are held agree -/

theorem percentile_names_ne (stem other : String) :
    stem ++ " percentile" ≠ other ++ "_percentile" := by
  intro h
  have hlist := congrArg String.toList h
  rw [String.toList_append, String.toList_append] at hlist
  exact absurd (List.append_inj' hlist (by decide)).2 (by decide)

section Held

variable {queryDepth : String} {additions : List Addition} {aggs : Aggs}

namespace Addition

/-- Percents and another metric of the same name are never both held. -/
theorem not_held_both {name : String} {source : Source} {percent : Float} {p : Placement}
    (hw : (Addition.percent name source percent).WellNamed queryDepth)
    (hw' : (metric p).WellNamed queryDepth) (hname : p.name = name)
    (h : (Addition.percent name source percent).Held queryDepth aggs)
    (h' : (metric p).Held queryDepth aggs) : False := by
  obtain ⟨⟨stem, rfl⟩, c, rfl⟩ := hw
  obtain ⟨percents, hget, -⟩ := h.percentiles
  obtain ⟨kind, hget', hanswers⟩ := h'
  have heq : placed queryDepth queryDepth (.percentiles (.column c) percents)
      = placed queryDepth p.depth kind := by
    rw [placed_self]
    refine Option.some.inj (hget.symm.trans ?_)
    rw [← hname]
    exact hget'
  obtain ⟨hdepth, rfl⟩ := placed_injective heq
  -- so the metric is percentiles of that column at the query path, and named otherwise
  obtain ⟨_, hk⟩ := hanswers.of_found_percentiles
  rcases (hw' _ _ hk).2 with ⟨script, hs⟩ | hne | ⟨other, hs⟩
  · cases hs
  · exact hne hdepth.symm
  · exact percentile_names_ne stem other (hname.symm.trans hs)

/-- Without percents of a name, the tree holds a metric of that name as it was placed. -/
theorem get?_foldl_metric {name : String} {entry : Agg}
    (h : ∀ a ∈ additions, a.name = name → ∃ p, a = metric p)
    (hget : (additions.foldl (apply queryDepth) []).get? name = some entry) :
    ∃ p, metric p ∈ additions ∧ p.name = name ∧ entry = placed queryDepth p.depth p.kind := by
  induction additions using List.reverseRecOn with
  | nil => simp [Aggs.get?] at hget
  | append_singleton done b ih =>
      rw [List.foldl_append, List.foldl_cons, List.foldl_nil, get?_apply] at hget
      by_cases hname : b.name = name
      · obtain ⟨p, rfl⟩ := h b (by simp) hname
        rw [if_pos hname] at hget
        exact ⟨p, by simp, hname, (Option.some.inj hget).symm⟩
      · rw [if_neg hname] at hget
        obtain ⟨p, hp, hrest⟩ := ih (fun a ha => h a (List.mem_append_left _ ha)) hget
        exact ⟨p, List.mem_append_left _ hp, hrest⟩

theorem WellNamed.single {p : Placement} (h : (metric p).WellNamed queryDepth) :
    p.kind.Single :=
  fun source percents hk => (h source percents hk).1

/-- **Additions that all hold in the end agree.** -/
theorem agrees_of_held (hw : ∀ a ∈ additions, a.WellNamed queryDepth)
    (hheld : ∀ a ∈ additions, a.Held queryDepth (additions.foldl (apply queryDepth) [])) :
    ∀ a ∈ additions, ∀ b ∈ additions, a.name = b.name → a.Agrees b := by
  intro a ha b hb hname
  cases a with
  | metric p =>
      cases b with
      | metric q =>
          obtain ⟨kind, hget, hp⟩ := hheld _ ha
          obtain ⟨kind', hget', hq⟩ := hheld _ hb
          have hsame := placed_injective (Option.some.inj (hget.symm.trans (hname ▸ hget')))
          -- so it is one metric that answers both, and it was placed as it is
          obtain ⟨r, hr, -, heq⟩ := get?_foldl_metric (fun c hc hcname => by
            cases c with
            | metric r => exact ⟨r, rfl⟩
            | percent => exact (not_held_both (hw _ hc) (hw _ ha) hcname.symm (hheld _ hc)
                (hheld _ ha)).elim) hget
          obtain ⟨-, hkind⟩ := placed_injective heq
          refine ⟨hsame.1, ?_⟩
          rw [hkind] at hp hsame
          rw [← hsame.2] at hq
          exact hp.both hq (hw _ ha).single (hw _ hb).single (hw _ hr).single
      | percent => exact (not_held_both (hw _ hb) (hw _ ha) hname (hheld _ hb) (hheld _ ha)).elim
  | percent name source x =>
      cases b with
      | metric =>
          exact (not_held_both (hw _ ha) (hw _ hb) hname.symm (hheld _ ha) (hheld _ hb)).elim
      | percent other source' y =>
          obtain rfl : name = other := hname
          obtain ⟨_, hget, -⟩ := (hheld _ ha).percentiles
          obtain ⟨_, hget', -⟩ := (hheld _ hb).percentiles
          have heq := Option.some.inj (hget.symm.trans hget')
          injection heq with hkind
          exact (AggKind.percentiles.inj hkind).1

end Addition

end Held

/-! ## Selects of one query -/

namespace MetricPlan

variable {catalog : Catalog} {valueLimit : Nat} {selects : List Select} {plans : List MetricPlan}

/-- **No metric disturbs another exactly when any two of one name agree**, and none is named like
a number of documents that a select reads. -/
theorem undisturbed_iff (h : selects.mapM (ofSelect catalog valueLimit) = .ok plans) :
    Undisturbed catalog.queryDepth plans ↔ Compatible plans := by
  -- planning says what each pull reads; the rest is about the additions alone
  have hsane : ∀ plan ∈ plans, ∃ s : Select, plan.Sane catalog.queryDepth (s.Places catalog) :=
    Results.forall_mem_of_mapM h fun s _ _ hplan => ⟨s, sane_ofSelect hplan⟩
  constructor
  · intro hu
    have hheld : ∀ a ∈ allAdditions plans, a.Held catalog.queryDepth
        (metrics catalog.queryDepth plans) := by
      intro a ha
      obtain ⟨plan, hplan, ha⟩ := mem_allAdditions.mp ha
      obtain ⟨s, hs⟩ := hsane plan hplan
      obtain ⟨need, hneed, hserves⟩ := hs.read a ha
      exact hu.held plan hplan need hneed a ha hserves
    refine ⟨Addition.agrees_of_held ?_ hheld, ?_⟩
    · intro a ha
      obtain ⟨plan, hplan, ha⟩ := mem_allAdditions.mp ha
      obtain ⟨s, hs⟩ := hsane plan hplan
      exact hs.named a ha
    · intro plan hplan hnone need hneed a ha hkey
      rcases hu.free plan hplan need hneed with ⟨b, hb, -⟩ | hfree
      · rw [hnone] at hb
        cases hb
      · exact Addition.get?_foldl_eq_none.mp (hfree a.name hkey) a ha rfl
  · intro hc
    have hheld : ∀ a ∈ allAdditions plans, a.Held catalog.queryDepth
        (metrics catalog.queryDepth plans) := Addition.held_foldl hc.agree
    refine ⟨?_, ?_⟩
    · intro plan hplan need _ a ha _
      exact hheld a (mem_allAdditions.mpr ⟨plan, hplan, ha⟩)
    · intro plan hplan need hneed
      obtain ⟨s, hs⟩ := hsane plan hplan
      rcases hs.served need hneed with hserved | ⟨hnone, -⟩
      · exact Or.inl hserved
      · refine Or.inr fun key hkey => Addition.get?_foldl_eq_none.mpr fun a ha hname => ?_
        exact hc.free plan hplan hnone need hneed a ha (hname ▸ hkey)

end MetricPlan

/-! ## A field with two types

Its columns have names of their own in most plans, but statistics at the query path go by the name
of the field alone. -/

/-- A field `m` that holds texts and numbers. -/
def mixedCatalog : Catalog where
  table := "t"
  columns :=
    [{ name := "m", stored := "m.~n~", mapping := "double", type := .number, nestedPath := ["."] },
      { name := "m", stored := "m.~s~", mapping := "keyword", type := .string,
        nestedPath := ["."] }]
  queryPath := ["."]

def mixedSelect (aggregate : Aggregate) : Select where
  name := "m"
  value := .var "m"
  aggregate := aggregate
  percentile := none
  default := .null

def mixedCardinality : MetricPlan where
  additions :=
    [.metric { name := "m.~n~_cardinality", kind := .cardinality (.column "m.~n~"), depth := "." },
      .metric { name := "m.~s~_cardinality", kind := .cardinality (.column "m.~s~"), depth := "." }]
  pull :=
    .coalesce
      [.sum [.path ["m.~n~_cardinality", "value"], .path ["m.~s~_cardinality", "value"]],
        .constant (.int 0)]

def mixedSum : MetricPlan where
  additions :=
    [.metric { name := "m", kind := .extendedStats (.column "m.~n~"), depth := "." },
      .metric { name := "m", kind := .extendedStats (.column "m.~s~"), depth := "." }]
  pull :=
    .sum
      [.coalesce [.path ["m", "sum"], .constant .null],
        .coalesce [.path ["m", "sum"], .constant .null]]

/-- The two counts have names of their own, so neither disturbs the other. -/
theorem undisturbed_cardinality :
    [mixedSelect .cardinality].mapM (MetricPlan.ofSelect mixedCatalog 10000)
        = .ok [mixedCardinality]
      ∧ MetricPlan.Undisturbed mixedCatalog.queryDepth [mixedCardinality] := by
  have hplans : [mixedSelect .cardinality].mapM (MetricPlan.ofSelect mixedCatalog 10000)
      = .ok [mixedCardinality] := by cbv
  refine ⟨hplans, (MetricPlan.undisturbed_iff hplans).mpr ⟨?_, ?_⟩⟩
  · intro a ha b hb hname
    simp only [MetricPlan.allAdditions, mixedCardinality, List.flatMap_singleton, List.mem_cons,
      List.not_mem_nil, or_false] at ha hb
    rcases ha with rfl | rfl
    · rcases hb with rfl | rfl
      · exact ⟨rfl, AggKind.Answers.refl _⟩
      · exact absurd hname (by decide)
    · rcases hb with rfl | rfl
      · exact absurd hname (by decide)
      · exact ⟨rfl, AggKind.Answers.refl _⟩
  · intro plan hplan hnone
    rw [List.mem_singleton.mp hplan] at hnone
    cases hnone

/-- The sum of `m` reads the sum of its texts twice, and that of its numbers never. -/
theorem not_undisturbed_mixed :
    [mixedSelect .sum].mapM (MetricPlan.ofSelect mixedCatalog 10000) = .ok [mixedSum]
      ∧ ¬ MetricPlan.Undisturbed mixedCatalog.queryDepth [mixedSum] := by
  refine ⟨by cbv, fun hu => ?_⟩
  have hserves : Addition.Serves mixedCatalog.queryDepth ⟨["m", "sum"], none⟩
      (.metric { name := "m", kind := .extendedStats (.column "m.~n~"), depth := "." }) :=
    ⟨by decide, fun _ h => by cases h⟩
  obtain ⟨kind, hget, hanswers⟩ := hu.held _ List.mem_cons_self _
    (by simp [mixedSum, Pull.needs, Pull.allNeeds]) _ List.mem_cons_self hserves
  have htexts : (MetricPlan.metrics mixedCatalog.queryDepth [mixedSum]).get? "m"
      = some (placed mixedCatalog.queryDepth "." (.extendedStats (.column "m.~s~"))) := by cbv
  obtain ⟨-, rfl⟩ := placed_injective (Option.some.inj (htexts.symm.trans hget))
  rcases hanswers with heq | ⟨_, _, _, heq, -⟩
  · have hcolumn := Source.column.inj (AggKind.extendedStats.inj heq)
    exact absurd hcolumn (by decide)
  · cases heq

end Tabula
