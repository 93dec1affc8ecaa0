import Tabula.Proofs.Grouping.Ways

/-!
# Steps that were asked for

A response may hold anything, but the mirror of a request offers no steps that were not asked for:
every step of a row belongs to an aggregation of its level (`offers_of_mem_walk`), level by level
(`offers_of_mem_walk_levels`) and edge by edge (`offers_of_mem_walk_layers`). Metrics do not
matter for this, nor does the number of partitions: a partition whose index is no machine word is
not read at all.
-/

set_option autoImplicit false

namespace Tabula

open Response (below walk steps)

def Part.marker : Part → Marker
  | .matched _ _ => .matched
  | .missing _ => .missing
  | .other => .other
  | .join i _ => .join i

namespace Level

/-- Whether a step leads into one of the aggregations of a level. -/
def Offers (level : Level) (part : Part) : Prop := ∃ a ∈ level, part.marker = a.1

theorem Fits.marker_part {a : Marker × AggKind} (h : Fits a) {c : Choice} (hc : c.marker = a.1) :
    c.part.marker = a.1 := by
  obtain ⟨marker, kind⟩ := a
  obtain ⟨marker, ordinal, bucket⟩ := c
  obtain rfl : marker = _ := hc
  cases marker with
  | matched => rfl
  | missing => rfl
  | other => rfl
  | join i => rfl
  | filter => exact absurd rfl h.ne_filter
  | nested => exact absurd rfl h.ne_nested
  | payload => exact absurd rfl h.ne_payload

/-- **A row of a mirror takes a step that its level offers**, and goes on in a mirror of the tree
below. -/
theorem offers_of_mem_walk {level : Level} (hfits : ∀ a ∈ level, Fits a) {inner : Aggs}
    {node : Json} (h : (level.around inner).Mirrors node) {n : Nat} {row : PathRow}
    (hrow : row ∈ walk (n + 1) node) :
    ∃ part rest bucket, row.parts = part :: rest.parts ∧ level.Offers part
      ∧ rest ∈ walk n bucket ∧ inner.Mirrors bucket := by
  obtain ⟨fields, rfl, hframed, hanswered⟩ := h
  rw [walk_succ (drill_around hfits hframed)] at hrow
  obtain ⟨⟨name, child⟩, hmember, hrow⟩ := List.mem_flatMap.mp hrow
  -- only a marker offers steps, and the only markers are those of the level
  have hmarker : Marker.ofName name ≠ .payload := by
    intro hpayload
    rw [steps_eq_nil hpayload] at hrow
    simp at hrow
  have hname := hframed.2 name (List.mem_map_of_mem hmember) hmarker
  rw [names_around] at hname
  obtain ⟨a, ha, rfl⟩ := List.mem_map.mp hname
  have hreads : Marker.ofName a.1.key = a.1 := (hfits a ha).reads_or.resolve_right hmarker
  have hanswer : (Agg.node a.2 inner).Answered child := by
    obtain ⟨answer, hget, hpayload | hanswer⟩ :=
      Aggs.answered_iff.mp hanswered (a.1.key, .node a.2 inner) (List.mem_map.mpr ⟨a, ha, rfl⟩)
    · exact absurd hpayload hmarker
    · rw [Fields.get?_of_mem hframed.1 hmember] at hget
      cases hget
      exact hanswer
  rw [flatMap_steps (hfits a ha) hreads hanswer] at hrow
  obtain ⟨c, hc, hrow⟩ := List.mem_flatMap.mp hrow
  obtain ⟨rest, hrest, rfl⟩ := List.mem_map.mp hrow
  obtain ⟨hcmarker, hbucket⟩ := mem_choicesOf hc
  exact ⟨c.part, rest, c.bucket, rfl, ⟨a, ha, (hfits a ha).marker_part hcmarker⟩, hrest,
    mirrors_of_mem_buckets hanswer hbucket⟩

/-- A row takes a step at each of several levels. -/
theorem offers_of_mem_walk_levels {levels : List Level} (hfits : ∀ l ∈ levels, ∀ a ∈ l, Fits a)
    {inner : Aggs} {node : Json} (h : (stack inner levels).Mirrors node) {n : Nat} {row : PathRow}
    (hrow : row ∈ walk (levels.length + n) node) :
    ∃ own rest bucket, row.parts = own ++ rest.parts ∧ List.Forall₂ Offers levels own
      ∧ rest ∈ walk n bucket ∧ inner.Mirrors bucket := by
  induction levels generalizing node row with
  | nil =>
      rw [List.length_nil, Nat.zero_add] at hrow
      exact ⟨[], row, node, rfl, .nil, hrow, h⟩
  | cons level levels ih =>
      obtain ⟨hlevel, hlevels⟩ := List.forall_mem_cons.mp hfits
      have hlen : (level :: levels).length + n = levels.length + n + 1 := by
        rw [List.length_cons]
        omega
      rw [hlen] at hrow
      obtain ⟨part, mid, bucket, hparts, hpart, hmid, hbucket⟩ := offers_of_mem_walk hlevel h hrow
      obtain ⟨own, rest, bucket', hown, howns, hrest, hbucket'⟩ := ih hlevels hbucket hmid
      refine ⟨part :: own, rest, bucket', ?_, .cons hpart howns, hrest, hbucket'⟩
      rw [hparts, hown, List.cons_append]

end Level

/-! ## Edges -/

namespace Grouping

/-- **In every row of a mirror, each edge takes steps that it asked for.** -/
theorem offers_of_mem_walk_layers {inner : Aggs} {layers : List Layer}
    (hs : ∀ d ∈ edges layers, d.kind.Sound) {node : Json}
    (h : (stacked inner layers).Mirrors node) {row : PathRow}
    (hrow : row ∈ walk (totalLevels (edges layers)) node) :
    ∃ parts : List (List Part), row.parts = parts.flatten
      ∧ List.Forall₂ (fun (d : Decoder) own => List.Forall₂ Level.Offers d.kind.asks own)
        (edges layers) parts := by
  -- on the layers: wrappers are drilled away, and an edge takes its steps first
  induction layers generalizing node row with
  | nil =>
      have hwalk : walk 0 node = [{ parts := [], node := Response.drill node }] := rfl
      rw [show totalLevels (edges []) = 0 from rfl, hwalk, List.mem_singleton] at hrow
      rw [hrow]
      exact ⟨[], rfl, .nil⟩
  | cons layer layers ih =>
      cases layer with
      | step outer scope =>
          obtain ⟨hinner, hdrill⟩ := mirrors_step h
          rw [← Level.walk_drill, hdrill, Level.walk_drill] at hrow
          exact ih hs hinner hrow
      | condition path filter =>
          obtain ⟨hinner, hdrill⟩ := mirrors_condition h
          rw [← Level.walk_drill, hdrill, Level.walk_drill] at hrow
          exact ih hs hinner hrow
      | edge d =>
          have hrest : ∀ e ∈ edges layers, e.kind.Sound := fun e he => hs e (by simp [he])
          have hlevels : totalLevels (edges (.edge d :: layers))
              = d.kind.asks.length + totalLevels (edges layers) := by
            rw [edges_edge, totalLevels_cons, EdgeKind.length_asks]
            rfl
          rw [hlevels] at hrow
          obtain ⟨own, rest, bucket, hparts, hown, hmem, hbucket⟩ :=
            Level.offers_of_mem_walk_levels (EdgeKind.fits_asks (hs d (by simp)))
              (mirrors_edge h) hrow
          obtain ⟨parts, hflatten, hoffers⟩ := ih hrest hbucket hmem
          refine ⟨own :: parts, ?_, ?_⟩
          · rw [hparts, hflatten, List.flatten_cons]
          · rw [edges_edge]
            exact .cons hown hoffers

end Grouping

end Tabula
