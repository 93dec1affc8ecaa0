import Tabula.Proofs.Metrics.Additions
import Tabula.Proofs.Results

/-!
# The plan of a select

What planning a select makes sure of (`MetricPlan.Sane`): each of its metrics is computed in the
nested documents of its column or of its formula, percents and other percentiles go by different
names, and its pull reads where its own metrics are, or counts documents. `sane_ofSelect` goes
through all aggregates; the plans have a few forms, and there is one lemma for each.
-/

set_option autoImplicit false

namespace Tabula

/-! ## Needs -/

/-- What a pull reads: the path of names, and the percent when it is one of percentiles. -/
structure Need where
  keys : List String
  percent : Option Float

namespace Pull

mutual

def needs : Pull → List Need
  | constant _ => []
  | path keys | bucketKeys keys | bucketCounts keys => [{ keys, percent := none }]
  | percentile keys percent => [{ keys, percent := some percent }]
  | stats keys median => [{ keys, percent := none }, { keys := median, percent := some 50.0 }]
  | coalesce pulls | sum pulls | union pulls | mergeCounts pulls => allNeeds pulls

def allNeeds : List Pull → List Need
  | [] => []
  | p :: rest => needs p ++ allNeeds rest

end

theorem mem_allNeeds {need : Need} {pulls : List Pull} :
    need ∈ allNeeds pulls ↔ ∃ p ∈ pulls, need ∈ p.needs := by
  induction pulls with
  | nil => simp [allNeeds]
  | cons p pulls ih => simp [allNeeds, ih]

end Pull

/-- The number of documents of a node, and of the step behind it. -/
def documentKeys : List (List String) := [["doc_count"], ["_nested", "doc_count"]]

/-- Whether a need is for a number of documents, and for no metric. -/
def Need.IsDocuments (need : Need) : Prop := need.keys ∈ documentKeys ∧ need.percent = none

/-! ## Additions of a select -/

def AggKind.Reads (column : String) : AggKind → Prop
  | filter f => f = .range column .gt (.int 0)
  | valueCount source | cardinality source | extendedStats source | percentiles source _ =>
      source = .column column
  | accumulate scripts =>
      scripts = Template.distinctValues column ∨ scripts = Template.valueCounts column
  | _ => False

namespace Addition

def keys (queryDepth : String) (a : Addition) : List String :=
  if a.depth queryDepth = queryDepth then [a.name] else [a.name, "_nested"]

/-- Whether an addition is what a need is for: it is found on the way, and has the percent. -/
def Serves (queryDepth : String) (need : Need) (a : Addition) : Prop :=
  a.keys queryDepth <+: need.keys
    ∧ ∀ percent, need.percent = some percent → ∃ source, a.kind = .percentiles source [percent]

/-- Whether an addition goes by a name of its kind. Percents of a column at the query path are
named differently from other percentiles of a column there. -/
def WellNamed (queryDepth : String) : Addition → Prop
  | percent name source _ => (∃ stem, name = stem ++ " percentile") ∧ ∃ c, source = .column c
  | metric p => ∀ source percents, p.kind = .percentiles source percents →
      (∃ percent, percents = [percent])
        ∧ ((∃ script, source = .script script) ∨ p.depth ≠ queryDepth
          ∨ ∃ stem, p.name = stem ++ "_percentile")

end Addition

/-- Whether an addition is computed where a select means it: in the nested documents of one of
its columns, which it reads, or of its formula. -/
def Select.Places (catalog : Catalog) (s : Select) (a : Addition) : Prop :=
  match s.value with
  | .var name => ∃ c ∈ catalog.scalars name, a.depth catalog.queryDepth = c.depth
      ∧ a.kind.Reads c.stored
  | value => MetricPlan.formulaDepth catalog value = .ok (a.depth catalog.queryDepth)

namespace MetricPlan

/-- What planning makes sure of, when the additions are computed at some places. -/
structure Sane (queryDepth : String) (Placed : Addition → Prop) (plan : MetricPlan) : Prop where
  placed : ∀ a ∈ plan.additions, Placed a
  stays : ∀ a ∈ plan.additions, a.kind.Stays
  named : ∀ a ∈ plan.additions, a.WellNamed queryDepth
  served : ∀ need ∈ plan.pull.needs,
    (∃ a ∈ plan.additions, a.Serves queryDepth need) ∨ plan.additions = [] ∧ need.IsDocuments
  /-- Nothing is added in vain. -/
  read : ∀ a ∈ plan.additions, ∃ need ∈ plan.pull.needs, a.Serves queryDepth need

/-! ## The forms of plans -/

section Forms

variable {queryDepth : String} {Placed : Addition → Prop}

theorem sane_constant (value : Json) : (constant value).Sane queryDepth Placed where
  placed := by simp [constant]
  stays := by simp [constant]
  named := by simp [constant]
  served := by simp [constant, Pull.needs]
  read := by simp [constant]

theorem sane_documents (catalog : Catalog) : (ofDocuments catalog).Sane queryDepth Placed where
  placed := by simp [ofDocuments]
  stays := by simp [ofDocuments]
  named := by simp [ofDocuments]
  served := by
    intro need hneed
    unfold ofDocuments at hneed
    simp only at hneed
    split at hneed
    next =>
        simp only [Pull.needs, List.mem_singleton] at hneed
        rw [hneed]
        exact Or.inr ⟨rfl, by decide, rfl⟩
    next =>
        simp only [Pull.needs, Pull.allNeeds, List.cons_append, List.nil_append, List.mem_cons,
          List.not_mem_nil, or_false] at hneed
        rcases hneed with rfl | rfl
        · exact Or.inr ⟨rfl, by decide, rfl⟩
        · exact Or.inr ⟨rfl, by decide, rfl⟩
  read := by simp [ofDocuments]

def NoPercentiles (kind : AggKind) : Prop :=
  ∀ source percents, kind ≠ .percentiles source percents

theorem wellNamed_of_noPercentiles {p : Placement} (h : NoPercentiles p.kind) :
    (Addition.metric p).WellNamed queryDepth :=
  fun source percents hk => absurd hk (h source percents)

/-- A plan of one addition, of whose result the pull reads something. -/
theorem sane_one {a : Addition} {pull : Pull} (hp : Placed a) (hs : a.kind.Stays)
    (hn : a.WellNamed queryDepth) (hne : pull.needs ≠ [])
    (hneeds : ∀ need ∈ pull.needs, a.Serves queryDepth need) :
    Sane queryDepth Placed { additions := [a], pull } where
  placed := by
    intro a ha
    rw [List.mem_singleton.mp ha]
    exact hp
  stays := by
    intro a ha
    rw [List.mem_singleton.mp ha]
    exact hs
  named := by
    intro a ha
    rw [List.mem_singleton.mp ha]
    exact hn
  served := fun need hneed => Or.inl ⟨_, List.mem_cons_self, hneeds need hneed⟩
  read := by
    intro a ha
    rw [List.mem_singleton.mp ha]
    obtain ⟨need, hneed⟩ := List.exists_mem_of_ne_nil _ hne
    exact ⟨need, hneed, hneeds need hneed⟩

theorem serves_path {p : Placement} (members : List String) :
    ∀ need ∈ (Pull.path (p.keys queryDepth ++ members)).needs,
      (Addition.metric p).Serves queryDepth need := by
  intro need hneed
  rw [Pull.needs, List.mem_singleton] at hneed
  rw [hneed]
  exact ⟨List.prefix_append _ _, fun _ h => by cases h⟩

theorem serves_percentile {a : Addition} {source : Source} {percent : Float}
    (hk : a.kind = .percentiles source [percent]) {need : Need}
    (hneed : need ∈ (Pull.percentile (a.keys queryDepth) percent).needs) :
    a.Serves queryDepth need := by
  rw [Pull.needs, List.mem_singleton] at hneed
  rw [hneed]
  refine ⟨List.prefix_rfl, ?_⟩
  intro p hp
  cases hp
  exact ⟨source, hk⟩

theorem sane_single {p : Placement} (members : List String) (hp : Placed (.metric p))
    (hs : p.kind.Stays) (hk : NoPercentiles p.kind) :
    (single queryDepth p members).Sane queryDepth Placed :=
  sane_one hp hs (wellNamed_of_noPercentiles hk) (by simp [Pull.needs]) (serves_path members)

/-- A plan of one metric for each column. -/
theorem sane_perColumn {columns : List Column} {placement : Column → Placement}
    {pull : Column → List String → Pull} {combine : List Pull → Pull}
    (hp : ∀ c ∈ columns, Placed (.metric (placement c)))
    (hs : ∀ c, (placement c).kind.Stays) (hk : ∀ c, NoPercentiles (placement c).kind)
    (hpull : ∀ c, ∀ need ∈ (pull c ((placement c).keys queryDepth)).needs,
      (Addition.metric (placement c)).Serves queryDepth need)
    (hne : ∀ c keys, (pull c keys).needs ≠ [])
    (hcombine : ∀ pulls, (combine pulls).needs = Pull.allNeeds pulls) :
    (perColumn queryDepth columns placement pull combine).Sane queryDepth Placed where
  placed := by
    intro a ha
    obtain ⟨c, hc, rfl⟩ := List.mem_map.mp ha
    exact hp c hc
  stays := by
    intro a ha
    obtain ⟨c, -, rfl⟩ := List.mem_map.mp ha
    exact hs c
  named := by
    intro a ha
    obtain ⟨c, -, rfl⟩ := List.mem_map.mp ha
    exact wellNamed_of_noPercentiles (hk c)
  served := by
    intro need hneed
    obtain ⟨p, hp, hneed⟩ := Pull.mem_allNeeds.mp (hcombine _ ▸ hneed)
    obtain ⟨c, hc, rfl⟩ := List.mem_map.mp hp
    exact Or.inl ⟨_, List.mem_map.mpr ⟨c, hc, rfl⟩, hpull c need hneed⟩
  read := by
    intro a ha
    obtain ⟨c, hc, rfl⟩ := List.mem_map.mp ha
    obtain ⟨need, hneed⟩ := List.exists_mem_of_ne_nil _
      (hne c ((placement c).keys queryDepth))
    refine ⟨need, ?_, hpull c need hneed⟩
    rw [perColumn, hcombine]
    exact Pull.mem_allNeeds.mpr ⟨_, List.mem_map.mpr ⟨c, hc, rfl⟩, hneed⟩

/-- Pulls combined read what each of them does. -/
theorem needs_combined {empty : Json} {many : List Pull → Pull}
    (hmany : ∀ pulls, (many pulls).needs = Pull.allNeeds pulls) (pulls : List Pull) :
    (combined empty many pulls).needs = Pull.allNeeds pulls := by
  unfold combined
  split
  next => rw [Pull.needs, Pull.allNeeds]
  next p => rw [Pull.allNeeds, Pull.allNeeds, List.append_nil]
  next => exact hmany _

theorem sane_statsPlan {source : Source} {depth statsName medianName : String}
    (hs : Placed (.metric { name := statsName, kind := .extendedStats source, depth }))
    (hm : Placed (.metric { name := medianName, kind := .percentiles source [50.0], depth }))
    (hn : (∃ script, source = .script script) ∨ ∃ stem, medianName = stem ++ "_percentile") :
    (statsPlan queryDepth source depth statsName medianName).Sane queryDepth Placed where
  placed := by
    intro a ha
    simp only [statsPlan, List.mem_cons, List.not_mem_nil, or_false] at ha
    rcases ha with rfl | rfl
    · exact hs
    · exact hm
  stays := by
    intro a ha
    simp only [statsPlan, List.mem_cons, List.not_mem_nil, or_false] at ha
    rcases ha with rfl | rfl
    · trivial
    · trivial
  named := by
    intro a ha
    simp only [statsPlan, List.mem_cons, List.not_mem_nil, or_false] at ha
    rcases ha with rfl | rfl
    · exact wellNamed_of_noPercentiles fun _ _ h => by cases h
    · -- the median has a name of its own, or one that ends in its suffix
      intro src percents hk
      cases hk
      exact ⟨⟨_, rfl⟩, hn.imp_right Or.inr⟩
  served := by
    intro need hneed
    simp only [statsPlan, Pull.needs, List.mem_cons, List.not_mem_nil, or_false] at hneed
    rcases hneed with rfl | rfl
    · exact Or.inl ⟨_, List.mem_cons_self, List.prefix_rfl, fun _ h => by cases h⟩
    · refine Or.inl ⟨_, List.mem_cons_of_mem _ List.mem_cons_self, List.prefix_rfl, ?_⟩
      intro percent h
      cases h
      exact ⟨source, rfl⟩
  read := by
    intro a ha
    simp only [statsPlan, List.mem_cons, List.not_mem_nil, or_false] at ha
    rcases ha with rfl | rfl
    · refine ⟨_, List.mem_cons_self, List.prefix_rfl, ?_⟩
      intro percent h
      cases h
    · refine ⟨_, List.mem_cons_of_mem _ List.mem_cons_self, List.prefix_rfl, ?_⟩
      intro percent h
      cases h
      exact ⟨source, rfl⟩

end Forms

/-! ## Fields -/

theorem mem_of_singleColumn {s : Select} {columns : List Column} {c : Column}
    (h : singleColumn s columns = .ok (some c)) : c ∈ columns := by
  unfold singleColumn at h
  split at h
  next => cases h
  next =>
      cases h
      exact List.mem_cons_self
  next => cases h

section Fields

variable {catalog : Catalog} {s : Select} {name : String} (hv : s.value = .var name)

include hv

theorem places_of_column {c : Column} (hc : c ∈ catalog.scalars name) {a : Addition}
    (hd : a.depth catalog.queryDepth = c.depth) (hr : a.kind.Reads c.stored) :
    s.Places catalog a := by
  unfold Select.Places
  rw [hv]
  exact ⟨c, hc, hd, hr⟩

theorem sane_percentileOfField {plan : MetricPlan}
    (h : percentileOfField catalog.queryDepth s name (catalog.scalars name) = .ok plan) :
    plan.Sane catalog.queryDepth (s.Places catalog) := by
  obtain ⟨column, hcolumn, h⟩ := Results.bind_eq_ok.mp h
  cases column with
  | none =>
      cases h
      exact sane_constant _
  | some c =>
      obtain ⟨percent, -, h⟩ := Results.bind_eq_ok.mp h
      cases h
      have hc : c ∈ catalog.scalars name := mem_of_singleColumn hcolumn
      by_cases hd : c.depth = catalog.queryDepth
      · simp only [hd, if_true]
        refine sane_one (places_of_column hv hc hd.symm rfl) trivial ⟨⟨name, rfl⟩, c.stored, rfl⟩
          (by simp [Pull.needs]) ?_
        exact fun need hneed => serves_percentile rfl hneed
      · simp only [hd, if_false]
        refine sane_one (places_of_column hv hc rfl rfl) trivial ?_ (by simp [Pull.needs]) ?_
        · intro source percents hk
          cases hk
          exact ⟨⟨percent, rfl⟩, Or.inr (Or.inl hd)⟩
        · exact fun need hneed => serves_percentile rfl hneed

theorem sane_stats {plan : MetricPlan} (h : ofField catalog s name = .ok plan)
    (ha : s.aggregate = .stats) : plan.Sane catalog.queryDepth (s.Places catalog) := by
  unfold ofField at h
  rw [ha] at h
  obtain ⟨column, hcolumn, h⟩ := Results.bind_eq_ok.mp h
  cases column with
  | none =>
      cases h
      exact sane_constant _
  | some c =>
      cases h
      have hc : c ∈ catalog.scalars name := mem_of_singleColumn hcolumn
      exact sane_statsPlan (places_of_column hv hc rfl rfl) (places_of_column hv hc rfl rfl)
        (Or.inr ⟨name, rfl⟩)

/-- The plan of one metric for each column of a field, none of them percentiles. -/
theorem sane_columns {placement : Column → Placement} {pull : Column → List String → Pull}
    {combine : List Pull → Pull} (hd : ∀ c, (placement c).depth = c.depth)
    (hr : ∀ c, (placement c).kind.Reads c.stored) (hs : ∀ c, (placement c).kind.Stays)
    (hk : ∀ c, NoPercentiles (placement c).kind)
    (hpull : ∀ c, ∀ need ∈ (pull c ((placement c).keys catalog.queryDepth)).needs,
      (Addition.metric (placement c)).Serves catalog.queryDepth need)
    (hne : ∀ c keys, (pull c keys).needs ≠ [])
    (hcombine : ∀ pulls, (combine pulls).needs = Pull.allNeeds pulls) :
    (perColumn catalog.queryDepth (catalog.scalars name) placement pull combine).Sane
      catalog.queryDepth (s.Places catalog) :=
  sane_perColumn (fun c hc => places_of_column hv hc (hd c) (hr c)) hs hk hpull hne hcombine

/-- **The plan of a select over a field is sane**, whatever the aggregate is. -/
theorem sane_ofField {plan : MetricPlan} (h : ofField catalog s name = .ok plan) :
    plan.Sane catalog.queryDepth (s.Places catalog) := by
  have sums : ∀ pulls, (Pull.sum pulls).needs = Pull.allNeeds pulls := fun _ => by
    rw [Pull.needs]
  have paths (keys : List String) : (Pull.path keys).needs ≠ [] := by simp [Pull.needs]
  cases ha : s.aggregate with
  | stats => exact sane_stats hv h ha
  | count =>
      unfold ofField at h
      rw [ha] at h
      cases h
      refine sane_columns hv (fun _ => rfl) ?_ ?_ ?_ (fun c => serves_path _)
        (fun _ _ => paths _) (needs_combined sums)
      · intro c
        unfold countPlacement
        simp only
        split
        next => rfl
        next => rfl
      · intro c
        unfold countPlacement
        simp only
        split
        next => trivial
        next => trivial
      · intro c source percents
        unfold countPlacement
        simp only
        split
        next => exact AggKind.noConfusion
        next => exact AggKind.noConfusion
  | cardinality =>
      unfold ofField at h
      rw [ha] at h
      cases h
      refine sane_columns hv (fun _ => rfl) (fun _ => rfl) (fun _ => trivial)
        (fun _ _ _ => AggKind.noConfusion) (fun c => serves_path _)
        (fun _ _ => paths _) (needs_combined ?_)
      intro pulls
      simp [Pull.needs, Pull.allNeeds]
  | union =>
      unfold ofField at h
      rw [ha] at h
      cases h
      refine sane_columns hv (fun _ => rfl) (fun _ => Or.inl rfl) (fun _ => trivial)
        (fun _ _ _ => AggKind.noConfusion) (fun c => serves_path _)
        (fun _ _ => paths _) (needs_combined ?_)
      intro pulls
      rw [Pull.needs]
  | countValues =>
      unfold ofField at h
      rw [ha] at h
      cases h
      refine sane_columns hv (fun _ => rfl) (fun _ => Or.inr rfl) (fun _ => trivial)
        (fun _ _ _ => AggKind.noConfusion) (fun c => serves_path _)
        (fun _ _ => paths _) (needs_combined ?_)
      intro pulls
      rw [Pull.needs]
  | median =>
      unfold ofField at h
      rw [ha] at h
      exact sane_percentileOfField hv h
  | percentile =>
      unfold ofField at h
      rw [ha] at h
      exact sane_percentileOfField hv h
  | plain =>
      unfold ofField at h
      rw [ha] at h
      cases h
  | _ =>
      -- the aggregates that are members of the statistics
      unfold ofField at h
      rw [ha] at h
      cases h
      refine sane_columns hv (fun _ => rfl) (fun _ => rfl) (fun _ => trivial)
        (fun _ _ _ => AggKind.noConfusion) ?_ (by simp [Pull.needs, Pull.allNeeds])
        (needs_combined sums)
      intro c need hneed
      simp only [Pull.needs, Pull.allNeeds, List.append_nil] at hneed
      exact serves_path _ need (by rw [Pull.needs]; exact hneed)

end Fields

/-! ## Formulas -/

section Formulas

variable {catalog : Catalog} {s : Select} (hv : ∀ name, s.value ≠ .var name)

include hv

theorem places_of_formula {a : Addition}
    (h : formulaDepth catalog s.value = .ok (a.depth catalog.queryDepth)) :
    s.Places catalog a := by
  unfold Select.Places
  split
  next name hname => exact absurd hname (hv name)
  next => exact h

variable {depth : String} (hd : formulaDepth catalog s.value = .ok depth)

include hd

theorem sane_ofTuple {terms : List Expr} {plan : MetricPlan}
    (h : ofTuple catalog s depth terms = .ok plan) :
    plan.Sane catalog.queryDepth (s.Places catalog) := by
  have best {direction : Int} {p : MetricPlan}
      (hp : (do
        let nulls ← (Expr.tuple (terms.map fun _ => Expr.null)).script catalog
        let tuple ← (Expr.tuple terms).script catalog
        .ok (single catalog.queryDepth
          { name := s.name, kind := .accumulate (Template.bestTuple tuple nulls direction), depth }
          ["value"]) : QueryResult MetricPlan) = .ok p) :
      p.Sane catalog.queryDepth (s.Places catalog) := by
    obtain ⟨nulls, -, hp⟩ := Results.bind_eq_ok.mp hp
    obtain ⟨tuple, -, hp⟩ := Results.bind_eq_ok.mp hp
    cases hp
    exact sane_single _ (places_of_formula hv hd) trivial fun _ _ => AggKind.noConfusion
  unfold ofTuple at h
  split at h
  next =>
      cases h
      refine ⟨by simp, by simp, by simp, ?_, by simp⟩
      intro need hneed
      rw [Pull.needs, List.mem_singleton] at hneed
      rw [hneed]
      exact Or.inr ⟨rfl, by decide, rfl⟩
  next => exact best h
  next => exact best h
  next => cases h

theorem sane_ofScript {valueLimit : Nat} {script : Script} {plan : MetricPlan}
    (h : ofScript catalog.queryDepth valueLimit s depth (.script script) = .ok plan) :
    plan.Sane catalog.queryDepth (s.Places catalog) := by
  have place (name : String) (kind : AggKind) :
      s.Places catalog (.metric { name, kind, depth }) := places_of_formula hv hd
  have named {p : Placement} {percent : Float}
      (hk : p.kind = .percentiles (.script script) [percent]) :
      (Addition.metric p).WellNamed catalog.queryDepth := by
    intro source percents hk'
    rw [hk] at hk'
    cases hk'
    exact ⟨⟨percent, rfl⟩, Or.inl ⟨script, rfl⟩⟩
  have percentile {plan : MetricPlan} (hp : (do
      let percent ← s.percent
      let p : Placement :=
        { name := s.name ++ " percentile", kind := .percentiles (.script script) [percent], depth }
      .ok { additions := [.metric p], pull := .percentile (p.keys catalog.queryDepth) percent } :
        QueryResult MetricPlan) = .ok plan) :
      plan.Sane catalog.queryDepth (s.Places catalog) := by
    obtain ⟨percent, -, hp⟩ := Results.bind_eq_ok.mp hp
    cases hp
    exact sane_one (place _ _) trivial (named rfl) (by simp [Pull.needs])
      fun need hneed => serves_percentile rfl hneed
  have whole {p : Placement} :
      ∀ need ∈ [{ keys := p.keys catalog.queryDepth, percent := none : Need }],
        (Addition.metric p).Serves catalog.queryDepth need := by
    intro need hneed
    rw [List.mem_singleton.mp hneed]
    exact ⟨List.prefix_rfl, fun _ h => by cases h⟩
  unfold ofScript at h
  cases ha : s.aggregate with
  | count =>
      rw [ha] at h
      cases h
      exact sane_single _ (place _ _) trivial fun _ _ => AggKind.noConfusion
  | median =>
      rw [ha] at h
      exact percentile h
  | percentile =>
      rw [ha] at h
      exact percentile h
  | cardinality =>
      rw [ha] at h
      cases h
      exact sane_single _ (place _ _) trivial fun _ _ => AggKind.noConfusion
  | stats =>
      rw [ha] at h
      cases h
      exact sane_statsPlan (place _ _) (place _ _) (Or.inl ⟨script, rfl⟩)
  | union =>
      rw [ha] at h
      cases h
      refine sane_one (place _ _) trivial ?_ (by simp [Pull.needs]) ?_
      · exact wellNamed_of_noPercentiles fun _ _ => AggKind.noConfusion
      · rw [Pull.needs]
        exact whole
  | countValues =>
      rw [ha] at h
      cases h
      refine sane_one (place _ _) trivial ?_ (by simp [Pull.needs]) ?_
      · exact wellNamed_of_noPercentiles fun _ _ => AggKind.noConfusion
      · rw [Pull.needs]
        exact whole
  | plain =>
      rw [ha] at h
      cases h
  | _ =>
      -- members of the statistics again
      rw [ha] at h
      cases h
      refine sane_one (place _ _) trivial ?_ (by simp [Pull.needs, Pull.allNeeds]) ?_
      · exact wellNamed_of_noPercentiles fun _ _ => AggKind.noConfusion
      · intro need hneed
        simp only [Pull.needs, Pull.allNeeds, List.append_nil] at hneed
        exact serves_path _ need (by rw [Pull.needs]; exact hneed)

omit hd in
theorem sane_ofFormula {valueLimit : Nat} {plan : MetricPlan}
    (h : ofFormula catalog valueLimit s = .ok plan) :
    plan.Sane catalog.queryDepth (s.Places catalog) := by
  obtain ⟨depth, hd, h⟩ := Results.bind_eq_ok.mp h
  split at h
  next => exact sane_ofTuple hv hd h
  next =>
      obtain ⟨script, -, h⟩ := Results.bind_eq_ok.mp h
      exact sane_ofScript hv hd h

end Formulas

/-! ## Selects -/

section Selects

variable {catalog : Catalog} {valueLimit : Nat} {s : Select} {plan : MetricPlan}

/-- Where the plan for the value of a select comes from. -/
theorem cases_of_value
    (h : (if s.isCountOfRoot then .ok (ofDocuments catalog)
      else match s.value with
        | .var name => ofField catalog s name
        | .leaves name =>
            .error (.unsupportedAggregate s.aggregate.name ("over all leaves of " ++ name))
        | _ => ofFormula catalog valueLimit s : QueryResult MetricPlan) = .ok plan) :
    plan = ofDocuments catalog
      ∨ (∃ name, s.value = .var name ∧ ofField catalog s name = .ok plan)
      ∨ (∀ name, s.value ≠ .var name) ∧ ofFormula catalog valueLimit s = .ok plan := by
  split at h
  next =>
      cases h
      exact Or.inl rfl
  next =>
      split at h
      next name hv => exact Or.inr (Or.inl ⟨name, hv, h⟩)
      next => cases h
      next hv _ => exact Or.inr (Or.inr ⟨hv, h⟩)

/-- **The plan of a select** counts documents, or it is that of a field or of a formula. -/
theorem ofSelect_cases (h : ofSelect catalog valueLimit s = .ok plan) :
    plan = ofDocuments catalog
      ∨ (∃ name, s.value = .var name ∧ ofField catalog s name = .ok plan)
      ∨ (∀ name, s.value ≠ .var name) ∧ ofFormula catalog valueLimit s = .ok plan := by
  unfold ofSelect at h
  split at h
  next => cases h
  next =>
      simp only at h
      split at h
      next =>
          -- the percent of a percentile is checked here, and not used
          obtain ⟨-, -, h⟩ := Results.bind_eq_ok.mp h
          exact cases_of_value h
      next => exact cases_of_value h

/-- **Every plan of a select is sane.** -/
theorem sane_ofSelect (h : ofSelect catalog valueLimit s = .ok plan) :
    plan.Sane catalog.queryDepth (s.Places catalog) := by
  rcases ofSelect_cases h with rfl | ⟨name, hv, h⟩ | ⟨hv, h⟩
  · exact sane_documents catalog
  · exact sane_ofField hv h
  · exact sane_ofFormula hv h

end Selects

end MetricPlan

end Tabula
