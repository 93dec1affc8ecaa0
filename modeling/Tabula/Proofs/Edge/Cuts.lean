import Tabula.Edge.Enumerated
import Tabula.Proofs.Edge.Exact

/-!
# Ranges cut the line

The edge of a range asks for the intervals inside of it, one for each partition, and for those
outside of it. In exact arithmetic they contain every number exactly once (`RangeEdge.cuts_line`):
a number lies in the interval at one place, which the floor of its distance from the beginning and
the two bounds of the range tell (`RangeEdge.contains_getElem?_iff`). A bucket that begins where the
interval of a partition does belongs to that partition, and its beginning is the partition's value.
The request asks for these intervals and for nothing else (`RangeEdge.mem_encode_iff`).
-/

set_option autoImplicit false

namespace Tabula

namespace RangeEdge

section

variable [Numeration] (e : RangeEdge ℚ)

/-! ## Places -/

theorem length_inside : e.inside.length = e.steps.count := by
  rw [inside, List.length_map, List.length_range]

theorem getElem?_inside {k : ℕ} (hk : k < e.steps.count) :
    e.inside[k]? = some { lower := some (e.steps.lower k), upper := some (e.steps.upper k) } := by
  rw [inside, List.getElem?_map, List.getElem?_range hk, Option.map_some]

variable {e} (hs : 0 < e.steps.interval)
include hs

/-- A number lies in the interval of a partition when the floor of its distance names it. -/
theorem contains_inside_iff {k : ℕ} {x : ℚ} :
    (∃ i ∈ e.inside[k]?, i.Contains x)
      ↔ k < e.steps.count ∧ ⌊e.steps.offset x⌋ = k ∧ x < e.steps.max := by
  by_cases hk : k < e.steps.count
  · rw [getElem?_inside e hk, ← Steps.within_iff hs]
    simp [Interval.Contains, hk]
  · have hnone : e.inside[k]? = none := by
      rw [List.getElem?_eq_none_iff, length_inside]
      omega
    simp [hnone, hk]

/-- The intervals outside of a range follow those inside: the one below it, then the one above. -/
theorem contains_getElem?_iff {k : ℕ} {x : ℚ} :
    (∃ i ∈ (e.inside ++ e.outside)[k]?, i.Contains x)
      ↔ (k < e.steps.count ∧ ⌊e.steps.offset x⌋ = k ∧ x < e.steps.max)
        ∨ (k = e.steps.count ∧ x < e.steps.min)
        ∨ (k = e.steps.count + 1 ∧ e.steps.max ≤ x) := by
  by_cases hk : k < e.steps.count
  · rw [List.getElem?_append_left (by rwa [length_inside]), contains_inside_iff hs]
    have hbelow : k ≠ e.steps.count := by omega
    have habove : k ≠ e.steps.count + 1 := by omega
    simp [hbelow, habove]
  · rw [List.getElem?_append_right (by rw [length_inside]; omega), length_inside]
    obtain ⟨j, rfl⟩ : ∃ j, k = e.steps.count + j := ⟨k - e.steps.count, by omega⟩
    rw [Nat.add_sub_cancel_left]
    match j with
    | 0 => simp [outside, Interval.Contains]
    | 1 => simp [outside, Interval.Contains]
    | j + 2 => simp [outside]

/-- **Each number lies in one interval**, of a range with its bounds in order. -/
theorem existsUnique_contains (horder : e.steps.min ≤ e.steps.max) (x : ℚ) :
    ∃! k : ℕ, ∃ i ∈ (e.inside ++ e.outside)[k]?, i.Contains x := by
  simp only [contains_getElem?_iff hs]
  have hinside := Steps.exists_floor_iff hs (x := x)
  -- a number lies below the range, inside of it, or from its end on
  rcases lt_or_ge x e.steps.min with hbelow | hmin
  · refine ⟨e.steps.count, Or.inr (Or.inl ⟨rfl, hbelow⟩), ?_⟩
    rintro k (⟨hk, hfloor, hmax⟩ | ⟨rfl, -⟩ | ⟨-, habove⟩)
    · exact absurd (hinside.mp ⟨k, hk, hfloor, hmax⟩).1 hbelow.not_ge
    · rfl
    · exact absurd (horder.trans habove) hbelow.not_ge
  · rcases lt_or_ge x e.steps.max with hmax | habove
    · -- inside, the floor of the distance is the only place
      obtain ⟨k, hk, hfloor, -⟩ := hinside.mpr ⟨hmin, hmax⟩
      refine ⟨k, Or.inl ⟨hk, hfloor, hmax⟩, ?_⟩
      rintro j (⟨-, hother, -⟩ | ⟨-, hbelow⟩ | ⟨-, habove⟩)
      · omega
      · exact absurd hmin hbelow.not_ge
      · exact absurd hmax habove.not_gt
    · refine ⟨e.steps.count + 1, Or.inr (Or.inr ⟨rfl, habove⟩), ?_⟩
      rintro k (⟨-, -, hmax⟩ | ⟨-, hbelow⟩ | ⟨rfl, -⟩)
      · exact absurd hmax habove.not_gt
      · exact absurd hmin hbelow.not_ge
      · rfl

theorem exists_contains_inside_iff {x : ℚ} :
    (∃ i ∈ e.inside, i.Contains x) ↔ e.steps.min ≤ x ∧ x < e.steps.max := by
  rw [← Steps.exists_floor_iff hs]
  simp only [← contains_inside_iff hs, List.mem_iff_getElem?]
  constructor
  · rintro ⟨i, ⟨k, hk⟩, hx⟩
    exact ⟨k, i, hk, hx⟩
  · rintro ⟨k, i, hk, hx⟩
    exact ⟨i, ⟨k, hk⟩, hx⟩

/-! ## Partitions -/

theorem pairwise_inside :
    e.inside.Pairwise fun a b => ∃ u ∈ a.upper, ∃ l ∈ b.lower, u ≤ l := by
  rw [inside, List.pairwise_map]
  refine List.pairwise_lt_range.imp fun {i j} hij => ?_
  exact ⟨_, rfl, _, rfl, Steps.upper_le_lower hs hij⟩

/-- A bucket that begins where a partition does belongs to the partition. -/
theorem slot_matched_lower {i : ℕ} (hi : i < e.steps.count) {n : ℕ} {bucket : Json}
    (hfrom : (bucket.get? "from").bind Scale.ofJson? = some (e.steps.lower i)) :
    e.slot (.matched n bucket) = .partition i := by
  simp only [slot, hfrom, Steps.indexOf_lower hs hi]

omit hs in
/-- **A range cuts the line.** In exact arithmetic the intervals inside and outside of an accepted
range contain every number exactly once. Those inside ascend, contain what lies from the lower bound
of the range up to the upper one, and are no more than allowed. A bucket that begins where the
interval of a partition does belongs to the partition, and the value of the partition is the number
at which it begins. -/
theorem cuts_line {limit : ℕ} (h : e.steps.fault? limit = none) :
    ∃ inside outside, e.ranges = [("_match", inside), ("_other", outside)]
      ∧ (∀ x : ℚ, ∃! k : ℕ, ∃ i ∈ (inside ++ outside)[k]?, i.Contains x)
      ∧ (∀ x : ℚ, (∃ i ∈ inside, i.Contains x) ↔ e.steps.min ≤ x ∧ x < e.steps.max)
      ∧ (inside.Pairwise fun a b => ∃ u ∈ a.upper, ∃ l ∈ b.lower, u ≤ l)
      ∧ inside.length ≤ limit
      ∧ ∀ (k : ℕ) (i : Interval ℚ), inside[k]? = some i →
          ∃ start stop : ℚ, i = { lower := some start, upper := some stop } ∧ start < stop
            ∧ (e.steps.value? k).bind Scale.ofJson? = some start
            ∧ ∀ (n : ℕ) (bucket : Json),
                (bucket.get? "from").bind Scale.ofJson? = some start →
                  e.slot (.matched n bucket) = .partition k := by
  obtain ⟨hs, horder, hlimit⟩ := (Steps.fault?_eq_none_iff e.steps).mp h
  refine ⟨e.inside, e.outside, rfl, existsUnique_contains hs horder,
    fun x => exists_contains_inside_iff hs, pairwise_inside hs, ?_, ?_⟩
  · rw [length_inside]
    exact hlimit
  · intro k i hi
    have hk : k < e.steps.count := by
      rw [← length_inside]
      exact (List.getElem?_eq_some_iff.mp hi).1
    rw [getElem?_inside e hk] at hi
    cases hi
    refine ⟨_, _, rfl, Steps.lower_lt_upper hs hk, ?_, fun n bucket => slot_matched_lower hs hk⟩
    rw [Steps.value?, if_pos hk]
    exact Scale.ofJson?_toJson _

end

/-- **A range edge asks for its intervals and no others**, each under its name and over the numbers
of its own source, and for the documents without a number. Each has the same tree below it. -/
theorem mem_encode_iff {e : RangeEdge} {inner : Aggs} {name : String} {agg : Agg} :
    (name, agg) ∈ e.encode inner
      ↔ (∃ intervals, (name, intervals) ∈ e.ranges
          ∧ agg = .node (.range e.source intervals) inner)
        ∨ name = "_missing" ∧ agg = .node e.missing inner := by
  rw [encode, List.mem_append, List.mem_map, List.mem_singleton, Prod.mk.injEq]
  refine or_congr ⟨?_, ?_⟩ Iff.rfl
  · rintro ⟨⟨asked, intervals⟩, hmem, heq⟩
    obtain ⟨rfl, rfl⟩ := Prod.mk.inj heq
    exact ⟨intervals, hmem, rfl⟩
  · rintro ⟨intervals, hmem, rfl⟩
    exact ⟨(name, intervals), hmem, rfl⟩

/-- The numbers from 0 up to 10 in partitions of the width 3, the last of which is narrower. -/
def byThree : RangeEdge ℚ where
  steps := { min := 0, max := 10, interval := 3 }
  source := .column "a.~n~"
  missing := .missing "a.~n~"

theorem cuts_line_byThree : byThree.steps.fault? 4 = none
    ∧ byThree.inside = [⟨some 0, some 3⟩, ⟨some 3, some 6⟩, ⟨some 6, some 9⟩, ⟨some 9, some 10⟩]
    ∧ ∃ inside outside, byThree.ranges = [("_match", inside), ("_other", outside)]
      ∧ (∀ x : ℚ, ∃! k : ℕ, ∃ i ∈ (inside ++ outside)[k]?, i.Contains x)
      ∧ (∀ x : ℚ, (∃ i ∈ inside, i.Contains x) ↔ 0 ≤ x ∧ x < 10)
      ∧ (inside.Pairwise fun a b => ∃ u ∈ a.upper, ∃ l ∈ b.lower, u ≤ l)
      ∧ inside.length ≤ 4
      ∧ ∀ (k : ℕ) (i : Interval ℚ), inside[k]? = some i →
          ∃ start stop : ℚ, i = { lower := some start, upper := some stop } ∧ start < stop
            ∧ (byThree.steps.value? k).bind Scale.ofJson? = some start
            ∧ ∀ (n : ℕ) (bucket : Json),
                (bucket.get? "from").bind Scale.ofJson? = some start →
                  byThree.slot (.matched n bucket) = .partition k :=
  have haccepted : byThree.steps.fault? 4 = none := by decide +kernel
  ⟨haccepted, by decide +kernel, cuts_line haccepted⟩

end RangeEdge

end Tabula
