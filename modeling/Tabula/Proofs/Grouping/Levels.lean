import Tabula.Proofs.Grouping.Pieces

/-!
# The levels of a compiled tree

On its way down a tree a row makes a step into each bucket, and none into the wrappers between
them. `Aggs.Beside` finds aggregations that stand side by side, with the number of steps that lead
to them. In a compiled tree they are what an edge asks for, at a level that its decoder owns, or a
wrapper, or they belong to the metrics and stand below the levels of all decoders
(`spot_of_compile`). No level has two owners (`Tiled.owner_unique`).
-/

set_option autoImplicit false

namespace Tabula

/-! ## Levels of trees -/

namespace Aggs

def isJoinName (name : String) : Bool := "_join_".toList.isPrefixOf name.toList

def isBucketName (name : String) : Bool :=
  name == "_match" || name == "_missing" || name == "_other" || isJoinName name

/-- Aggregations that stand side by side at a level of a tree, when the tree stands at another. -/
inductive Beside (group : Aggs) (level : Nat) : Nat → Aggs → Prop where
  | whole : Beside group level level group
  | inside {outer : Nat} {name : String} {kind : AggKind} {content tree : Aggs} :
      (name, .node kind content) ∈ tree →
        Beside group level (outer + if isBucketName name then 1 else 0) content →
        Beside group level outer tree

variable {group tree : Aggs} {level outer : Nat}

/-- Nothing stands above the tree that it is in. -/
theorem Beside.le (h : Beside group level outer tree) : outer ≤ level := by
  induction h with
  | whole => exact Nat.le_refl _
  | inside _ _ ih => exact (Nat.le_add_right _ _).trans ih

theorem beside_wrap {name : String} {kind : AggKind} (hname : isBucketName name = false)
    (h : Beside group level outer (tree.wrap name kind)) :
    group = tree.wrap name kind ∨ Beside group level outer tree := by
  cases h with
  | whole => exact Or.inl rfl
  | inside hmem h =>
      cases List.mem_singleton.mp hmem
      rw [hname] at h
      exact Or.inr h

theorem isJoinName_joinKey (i : Nat) : isJoinName (Marker.joinKey i) = true := by
  rw [isJoinName, List.isPrefixOf_iff_prefix, Marker.toList_joinKey]
  exact ⟨Nat.toDigits 10 i, rfl⟩

end Aggs

namespace Level

variable {group inner : Aggs} {level outer : Nat}

theorem Fits.isBucketName {ask : Marker × AggKind} (h : Fits ask) :
    Aggs.isBucketName ask.1.key = true := by
  obtain ⟨marker, kind⟩ := ask
  cases marker with
  | matched => rfl
  | missing => rfl
  | other => rfl
  | join i => simp [Aggs.isBucketName, Marker.key, Aggs.isJoinName_joinKey]
  | filter | nested | payload => exact h.elim

/-- Behind the aggregations of a level stands the tree within, one step down. -/
theorem beside_around {asked : Level} (hfits : ∀ ask ∈ asked, Fits ask)
    (h : Aggs.Beside group level outer (asked.around inner)) :
    (level = outer ∧ group = asked.around inner) ∨ Aggs.Beside group level (outer + 1) inner := by
  cases h with
  | whole => exact Or.inl ⟨rfl, rfl⟩
  | inside hmem h =>
      obtain ⟨ask, hask, heq⟩ := List.mem_map.mp hmem
      cases heq
      rw [(hfits ask hask).isBucketName] at h
      exact Or.inr h

/-- **Levels around a tree stand one step below the other**, and the tree below all of them. -/
theorem beside_stack {levels : List Level} (hfits : ∀ asked ∈ levels, ∀ ask ∈ asked, Fits ask)
    (h : Aggs.Beside group level outer (stack inner levels)) :
    (∃ k asked below, levels[k]? = some asked ∧ level = outer + k ∧ group = asked.around below)
      ∨ Aggs.Beside group level (outer + levels.length) inner := by
  induction levels generalizing outer with
  | nil => exact Or.inr h
  | cons asked levels ih =>
      obtain ⟨hasked, hrest⟩ := List.forall_mem_cons.mp hfits
      rcases beside_around hasked h with ⟨rfl, rfl⟩ | h
      · exact Or.inl ⟨0, asked, _, rfl, rfl, rfl⟩
      · rcases ih hrest h with ⟨k, found, below, hk, rfl, rfl⟩ | h
        · exact Or.inl ⟨k + 1, found, below, hk, by omega, rfl⟩
        · rw [List.length_cons, Nat.add_comm levels.length, ← Nat.add_assoc]
          exact Or.inr h

end Level

/-! ## Owners of levels -/

/-- Whether the steps at a level are a decoder's own. -/
def Decoder.Owns (level : Nat) (d : Decoder) : Prop := d.start ≤ level ∧ level < d.start + d.levels

/-- A decoder owns the levels at which its edge asks for something. -/
theorem Decoder.owns_of_asks {d : Decoder} {k level : Nat} {asked : Level}
    (hk : d.kind.asks[k]? = some asked) (hlevel : level = d.start + k) : d.Owns level := by
  obtain ⟨hlt, -⟩ := List.getElem?_eq_some_iff.mp hk
  rw [EdgeKind.length_asks] at hlt
  rw [hlevel]
  exact ⟨Nat.le_add_right _ _, Nat.add_lt_add_left hlt _⟩

namespace Grouping

variable {start level : Nat} {ds : List Decoder} {d e : Decoder}

theorem Tiled.start_le (h : Tiled start ds) (hd : d ∈ ds) : start ≤ d.start := by
  induction ds generalizing start with
  | nil => cases hd
  | cons first ds ih =>
      obtain ⟨hfirst, h⟩ := h
      rcases List.mem_cons.mp hd with rfl | hd
      · exact hfirst.ge
      · exact (Nat.le_add_right _ _).trans (ih h hd)

/-- Levels that have an owner are above all others. -/
theorem Tiled.lt_of_owns (h : Tiled start ds) (hd : d ∈ ds) (hown : d.Owns level) :
    level < start + totalLevels ds := by
  induction ds generalizing start with
  | nil => cases hd
  | cons first ds ih =>
      obtain ⟨hfirst, h⟩ := h
      rw [totalLevels_cons]
      rcases List.mem_cons.mp hd with rfl | hd
      · have := hown.2
        omega
      · have := ih h hd
        omega

/-- The first decoder ends before any other begins. -/
theorem Tiled.not_owns_rest {first other : Decoder} (h : Tiled start (first :: ds))
    (hother : other ∈ ds) (hown : first.Owns level) : ¬ other.Owns level := by
  intro hown'
  obtain ⟨hfirst, h⟩ := h
  have hstart := h.start_le hother
  have := hown.2
  have := hown'.1
  omega

/-- **No level has two owners.** -/
theorem Tiled.owner_unique (h : Tiled start ds) (hd : d ∈ ds) (he : e ∈ ds) (hown : d.Owns level)
    (hown' : e.Owns level) : d = e := by
  induction ds generalizing start with
  | nil => cases hd
  | cons first ds ih =>
      rcases List.mem_cons.mp hd with hfirst | hrest
      · rcases List.mem_cons.mp he with hfirst' | hrest'
        · exact hfirst.trans hfirst'.symm
        · exact absurd hown' (h.not_owns_rest hrest' (hfirst ▸ hown))
      · rcases List.mem_cons.mp he with hfirst' | hrest'
        · exact absurd hown (h.not_owns_rest hrest (hfirst' ▸ hown'))
        · exact ih h.2 hrest hrest'

/-! ## Spots in compiled trees -/

/-- What stands side by side at a level of a tree that was put around metrics, which stand at the
last level. -/
inductive Spot (metrics : Aggs) (ds : List Decoder) (last level : Nat) : Aggs → Prop where
  /-- What an edge asks for, at a level of its decoder. -/
  | edge {d : Decoder} {k : Nat} {asked : Level} (below : Aggs) :
      d ∈ ds → d.kind.asks[k]? = some asked → level = d.start + k →
        Spot metrics ds last level (asked.around below)
  | step (outer scope : String) (below : Aggs) :
      Spot metrics ds last level (below.wrap "_nested" (Aggs.step outer scope))
  | condition (filter : Filter) (below : Aggs) :
      Spot metrics ds last level (below.wrap "_filter" (.filter filter))
  | metrics {group : Aggs} :
      Aggs.Beside group level last metrics → Spot metrics ds last level group

theorem Spot.mono {metrics group : Aggs} {ds ds' : List Decoder} {last : Nat}
    (h : Spot metrics ds last level group) (hds : ∀ d ∈ ds, d ∈ ds') :
    Spot metrics ds' last level group := by
  cases h with
  | edge below hd hk hlevel => exact .edge below (hds _ hd) hk hlevel
  | step outer scope below => exact .step outer scope below
  | condition filter below => exact .condition filter below
  | metrics h => exact .metrics h

/-- What stands side by side in layers around metrics. -/
theorem spot_of_beside {metrics group : Aggs} {layers : List Layer}
    (hsound : ∀ d ∈ edges layers, d.kind.Sound) (htiled : Tiled start (edges layers))
    (h : Aggs.Beside group level start (stacked metrics layers)) :
    Spot metrics (edges layers) (start + totalLevels (edges layers)) level group := by
  induction layers generalizing start with
  | nil => exact .metrics h
  | cons layer layers ih =>
      cases layer with
      | step outer scope =>
          rcases Aggs.beside_wrap (by decide) h with rfl | h
          · exact .step outer scope _
          · exact ih hsound htiled h
      | condition path filter =>
          rcases Aggs.beside_wrap (by decide) h with rfl | h
          · exact .condition filter _
          · exact ih hsound htiled h
      | edge d =>
          obtain ⟨hd, hrest⟩ := List.forall_mem_cons.mp hsound
          obtain ⟨hstart, htiled⟩ := htiled
          have h : Aggs.Beside group level start
              (Level.stack (stacked metrics layers) d.kind.asks) := d.kind.encode_eq _ ▸ h
          -- among the levels of this edge, or below all of them
          rcases Level.beside_stack (EdgeKind.fits_asks hd) h with
            ⟨k, asked, below, hk, hlevel, rfl⟩ | h
          · exact .edge below List.mem_cons_self hk (hstart ▸ hlevel)
          · rw [EdgeKind.length_asks] at h
            rw [edges_edge, totalLevels_cons, ← Nat.add_assoc]
            exact (ih hrest htiled h).mono fun d hd => List.mem_cons_of_mem _ hd

variable {catalog : Catalog} {options : Options} {q : Query}

/-- **What stands side by side in a compiled tree**: what an edge asks for, a wrapper, or metrics,
below the levels of all decoders. -/
theorem spot_of_compile {pieces : Pieces} (hp : Pieces.ofQuery catalog options q = .ok pieces)
    {plan : GroupingPlan} (h : compile catalog options q = .ok plan) {group : Aggs}
    (hgroup : Aggs.Beside group level 0 plan.tree) :
    Spot (pieces.metrics catalog.queryDepth) pieces.outer (totalLevels pieces.outer) level
      group := by
  obtain ⟨layers, -, htree, hedges, -⟩ := layers_of_compile h hp
  have hsound : ∀ d ∈ edges layers, d.kind.Sound := by
    rw [hedges]
    exact fun d hd => Pieces.sound_decoders hp d (pieces.perm_outer.mem_iff.mp hd)
  have htiled : Tiled 0 (edges layers) := hedges ▸ pieces.tiled_outer
  rw [htree] at hgroup
  have hspot := spot_of_beside hsound htiled hgroup
  rwa [hedges, Nat.zero_add] at hspot

end Grouping

end Tabula
