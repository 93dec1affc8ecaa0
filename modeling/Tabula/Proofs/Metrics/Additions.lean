import Tabula.Metrics.Plan
import Tabula.Proofs.Search.Scopes

/-!
# The metrics of several selects

The selects of a query add their metrics to one tree, name by name: an addition decides what the
tree holds under its own name and nothing else (`get?_apply`). Whatever the tree holds in the end
was asked for by one of the additions, at the nested documents of that addition
(`mem_metrics`), but for percents that joined it.
-/

set_option autoImplicit false

namespace Tabula

/-! ## Trees by name -/

namespace Aggs

theorem get?_insert (name other : String) (agg : Agg) (aggs : Aggs) :
    (aggs.insert name agg).get? other = if name = other then some agg else aggs.get? other := by
  induction aggs with
  | nil => simp [insert, get?]
  | cons a aggs ih =>
      obtain ⟨n, old⟩ := a
      by_cases hn : n = name
      · subst hn
        by_cases ho : n = other
        · simp [insert, get?, ho]
        · simp [insert, get?, ho]
      · simp only [insert, hn, if_false, get?, ih]
        by_cases ho : n = other
        · have hne : name ≠ other := fun heq => hn (ho.trans heq.symm)
          simp [ho, hne]
        · simp [ho]

/-- Setting what is there changes nothing. -/
theorem insert_self {name : String} {agg : Agg} {aggs : Aggs} (h : aggs.get? name = some agg) :
    aggs.insert name agg = aggs := by
  induction aggs with
  | nil => simp [get?] at h
  | cons a aggs ih =>
      obtain ⟨n, old⟩ := a
      by_cases hn : n = name
      · simp only [get?, hn, if_true, Option.some.injEq] at h
        simp only [insert, hn, if_true, h]
      · simp only [get?, hn, if_false] at h
        simp only [insert, hn, if_false, ih h]

theorem mem_insert {name : String} {agg : Agg} {aggs : Aggs} {entry : String × Agg}
    (h : entry ∈ aggs.insert name agg) : entry = (name, agg) ∨ entry ∈ aggs := by
  induction aggs with
  | nil => exact Or.inl (List.mem_singleton.mp h)
  | cons a aggs ih =>
      obtain ⟨n, old⟩ := a
      by_cases hn : n = name
      · simp only [insert, hn, if_true, List.mem_cons] at h
        rcases h with rfl | h
        · exact Or.inl rfl
        · exact Or.inr (List.mem_cons_of_mem _ h)
      · simp only [insert, hn, if_false, List.mem_cons] at h
        rcases h with rfl | h
        · exact Or.inr List.mem_cons_self
        · exact (ih h).imp_right (List.mem_cons_of_mem _)

theorem mem_of_get? {name : String} {agg : Agg} {aggs : Aggs} (h : aggs.get? name = some agg) :
    (name, agg) ∈ aggs := by
  induction aggs with
  | nil => simp [get?] at h
  | cons a aggs ih =>
      obtain ⟨n, old⟩ := a
      by_cases hn : n = name
      · simp only [get?, hn, if_true, Option.some.injEq] at h
        rw [hn, h]
        exact List.mem_cons_self
      · simp only [get?, hn, if_false] at h
        exact List.mem_cons_of_mem _ (ih h)

end Aggs

/-! ## Additions -/

def placed (queryDepth depth : String) (kind : AggKind) : Agg :=
  if depth = queryDepth then .leaf kind
  else .node (Aggs.step queryDepth depth) [("_nested", .leaf kind)]

theorem placed_self (queryDepth : String) (kind : AggKind) :
    placed queryDepth queryDepth kind = .leaf kind :=
  if_pos rfl

theorem Placement.insertInto_eq (queryDepth : String) (aggs : Aggs) (p : Placement) :
    p.insertInto queryDepth aggs = aggs.insert p.name (placed queryDepth p.depth p.kind) := by
  unfold Placement.insertInto placed
  split
  next => rfl
  next => rfl

/-- Whether percents hold one, as additions tell them apart. -/
def hasPercent (percents : List Float) (percent : Float) : Bool :=
  percents.any fun p => Double.orderKey p == Double.orderKey percent

/-- What a percent makes of what the tree holds under its name: it joins other percents, whatever
they are of, and replaces anything else. -/
def withPercent (source : Source) (percent : Float) : Option Agg → Agg
  | some (.node (.percentiles found percents) below) =>
      if hasPercent percents percent then .node (.percentiles found percents) below
      else .node (.percentiles found (percents ++ [percent])) below
  | _ => .leaf (.percentiles source [percent])

/-- A percent changes the tree under its name only. -/
theorem addPercent_eq (name : String) (source : Source) (percent : Float) (aggs : Aggs) :
    aggs.addPercent name source percent
      = aggs.insert name (withPercent source percent (aggs.get? name)) := by
  unfold Aggs.addPercent
  split
  next found percents below hget =>
      rw [hget, withPercent, hasPercent]
      split
      next => exact (Aggs.insert_self hget).symm
      next => rfl
  next hother =>
      rw [Aggs.insertLeaf, withPercent]
      exact hother

namespace Addition

def name : Addition → String
  | metric p => p.name
  | percent name _ _ => name

/-- The nested documents that an addition is computed in. -/
def depth (queryDepth : String) : Addition → String
  | metric p => p.depth
  | percent _ _ _ => queryDepth

def kind : Addition → AggKind
  | metric p => p.kind
  | percent _ source p => .percentiles source [p]

/-- What an addition makes of what the tree holds under its name. -/
def update (queryDepth : String) (old : Option Agg) : Addition → Agg
  | metric p => placed queryDepth p.depth p.kind
  | percent _ source p => withPercent source p old

variable {queryDepth : String}

/-- **An addition changes the tree under its own name only.** -/
theorem apply_eq (a : Addition) (aggs : Aggs) :
    a.apply queryDepth aggs = aggs.insert a.name (a.update queryDepth (aggs.get? a.name)) := by
  cases a with
  | metric p => exact Placement.insertInto_eq queryDepth aggs p
  | percent name source p => exact addPercent_eq name source p aggs

theorem get?_apply (a : Addition) (aggs : Aggs) (other : String) :
    (a.apply queryDepth aggs).get? other
      = if a.name = other then some (a.update queryDepth (aggs.get? a.name))
        else aggs.get? other := by
  rw [apply_eq, Aggs.get?_insert]

end Addition

/-! ## What the tree holds -/

/-- Whether a kind is what was asked for, but for percents that joined it. -/
def AggKind.Joined (asked found : AggKind) : Prop :=
  found = asked ∨ ∃ source percents more, asked = .percentiles source percents
    ∧ found = .percentiles source (percents ++ more)

theorem AggKind.Joined.append {asked : AggKind} {source : Source} {percents : List Float}
    (h : asked.Joined (.percentiles source percents)) (more : List Float) :
    asked.Joined (.percentiles source (percents ++ more)) := by
  rcases h with rfl | ⟨s, ps, joined, rfl, heq⟩
  · exact Or.inr ⟨source, percents, more, rfl, rfl⟩
  · cases heq
    exact Or.inr ⟨source, ps, joined ++ more, rfl, by rw [List.append_assoc]⟩

theorem AggKind.Joined.stays {asked found : AggKind} (h : asked.Joined found)
    (hs : asked.Stays) : found.Stays := by
  rcases h with rfl | ⟨source, percents, more, rfl, rfl⟩
  · exact hs
  · trivial

theorem Aggs.step_ne_percentiles (outer inner : String) (source : Source)
    (percents : List Float) : Aggs.step outer inner ≠ .percentiles source percents := by
  unfold Aggs.step
  split
  next => exact AggKind.noConfusion
  next => exact AggKind.noConfusion

/-- Only a metric at the query path itself can be joined by percents. -/
theorem placed_eq_percentiles {queryDepth depth : String} {kind : AggKind} {source : Source}
    {percents : List Float} {below : Aggs}
    (h : placed queryDepth depth kind = .node (.percentiles source percents) below) :
    depth = queryDepth ∧ kind = .percentiles source percents ∧ below = [] := by
  unfold placed at h
  split at h
  next hdepth =>
      injection h with hkind hbelow
      exact ⟨hdepth, hkind, hbelow.symm⟩
  next =>
      injection h with hkind
      exact absurd hkind (Aggs.step_ne_percentiles _ _ _ _)

/-- Whether an entry of the tree at the query path goes back to one of some additions. -/
def Addition.From (queryDepth : String) (additions : List Addition) (entry : String × Agg) :
    Prop :=
  ∃ a ∈ additions, ∃ kind, a.kind.Joined kind
    ∧ entry = (a.name, placed queryDepth (a.depth queryDepth) kind)

section Entries

variable {queryDepth : String} {additions : List Addition}

/-- An addition keeps it that all entries go back to additions. -/
theorem Addition.from_apply {a : Addition} (ha : a ∈ additions) {aggs : Aggs}
    (h : ∀ entry ∈ aggs, From queryDepth additions entry) :
    ∀ entry ∈ a.apply queryDepth aggs, From queryDepth additions entry := by
  intro entry hentry
  rw [apply_eq] at hentry
  rcases Aggs.mem_insert hentry with rfl | hold
  · cases a with
    | metric p => exact ⟨_, ha, p.kind, Or.inl rfl, rfl⟩
    | percent name source p =>
        simp only [Addition.name, Addition.update]
        unfold withPercent
        split
        next found percents below hget =>
            obtain ⟨b, hb, kind, hjoined, heq⟩ := h _ (Aggs.mem_of_get? hget)
            have hname : name = b.name := congrArg Prod.fst heq
            -- percentiles without a step around them are at the query path, so the percent joins
            -- an addition that is computed there
            obtain ⟨hdepth, rfl, rfl⟩ := placed_eq_percentiles (congrArg Prod.snd heq).symm
            split
            next => exact ⟨b, hb, _, hjoined, heq⟩
            next =>
                refine ⟨b, hb, _, hjoined.append [p], ?_⟩
                rw [hname, hdepth, placed_self]
                rfl
        next =>
            refine ⟨_, ha, .percentiles source [p], Or.inl rfl, ?_⟩
            exact congrArg (Prod.mk name) (placed_self queryDepth _).symm
  · exact h entry hold

theorem Addition.from_foldl {new : List Addition} (hs : ∀ a ∈ new, a ∈ additions)
    {aggs : Aggs} (h : ∀ entry ∈ aggs, From queryDepth additions entry) :
    ∀ entry ∈ new.foldl (apply queryDepth) aggs, From queryDepth additions entry := by
  induction new generalizing aggs with
  | nil => exact h
  | cons a new ih =>
      exact ih (fun b hb => hs b (List.mem_cons_of_mem _ hb))
        (from_apply (hs a List.mem_cons_self) h)

/-- **Every metric of the tree was asked for**, at the nested documents that it is held in. -/
theorem Addition.mem_metrics {entry : String × Agg}
    (h : entry ∈ additions.foldl (apply queryDepth) []) : From queryDepth additions entry :=
  from_foldl (fun _ ha => ha) (by simp) entry h

end Entries

/-! ## Scopes of metrics -/

section Scopes

variable {queryDepth depth : String} {kind : AggKind}

theorem legal_placed (hk : kind.Stays) (hc : Path.Comparable queryDepth depth) :
    (placed queryDepth depth kind).Legal queryDepth := by
  unfold placed
  split
  next => exact ⟨hk.legal _, trivial⟩
  next hne =>
      obtain ⟨hlegal, -⟩ := Aggs.legal_step hne hc
      exact ⟨hlegal, ⟨hk.legal _, trivial⟩, trivial⟩

theorem leaves_placed (hc : Path.Comparable queryDepth depth) :
    (placed queryDepth depth kind).leaves queryDepth = [(depth, kind)] := by
  unfold placed
  split
  next heq => rw [heq, Agg.leaf, Agg.leaves]
  next hne =>
      obtain ⟨-, hscope⟩ := Aggs.legal_step hne hc
      rw [Aggs.leaves_node (by simp), hscope]
      simp only [Aggs.leaves, Agg.leaf, Agg.leaves, List.append_nil]

end Scopes

end Tabula
