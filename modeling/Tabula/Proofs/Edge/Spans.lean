import Tabula.Edge.Enumerated
import Tabula.Proofs.Edge.Exact
import Tabula.Proofs.Edge.Joins
import Tabula.Proofs.Expr.Conditions

/-!
# Spans count where they overlap

The edge of a span asks for a filter for each partition of its range. In exact arithmetic, with both
ends of the span in columns of numbers, a document satisfies the filter of a partition exactly when
its span and the partition meet (`SpanEdge.counts_overlapped`): the condition that the filter is
made of compares the beginning of each with the end of the other (`SpanEdge.satisfied_overlap`),
which is what it takes for them to meet (`Interval.meets_iff`).
-/

set_option autoImplicit false

namespace Tabula

/-- A name that stands for one column of numbers, and for nothing else at or below it. -/
structure Catalog.OneNumber (catalog : Catalog) (name : String) (c : Column) : Prop where
  scalars : catalog.scalars name = [c]
  leaves : catalog.leaves name = [c]
  type : c.type = .number

/-- Whether a document, by the numbers in its columns, satisfies a clause. -/
def Filter.passes [Numeration] (doc : String → Option ℚ) : Filter → Bool
  | .range column op bound =>
      (doc column).any fun x => (Scale.ofJson? bound : Option ℚ).any fun b => op.holds (compare x b)
  | .present column => (doc column).isSome
  | _ => false

/-- Whether the filter that is asked for under a name is satisfied. -/
def Aggs.admits (test : Filter → Bool) (name : String) (aggs : Aggs) : Bool :=
  (aggs.filter? name).any (Filter.meets test)

namespace CompareOp

theorem holds_lt_iff {x q : ℚ} : lt.holds (compare x q) = true ↔ x < q := by
  rw [holds, Ordering.isLT_iff_eq_lt, compare_lt_iff_lt]

theorem holds_gt_iff {x q : ℚ} : gt.holds (compare x q) = true ↔ q < x := by
  rw [holds, Ordering.isGT_iff_eq_gt, compare_gt_iff_gt]

end CompareOp

section

variable [Numeration] {catalog : Catalog} {doc : String → Option ℚ}

open Tabula.Expr

/-! ## Clauses -/

namespace Catalog.OneNumber

variable {name : String} {c : Column} (h : catalog.OneNumber name c)
include h

theorem compareFilter_eq {op : CompareOp} (hop : op = .lt ∨ op = .gt) (q : ℚ) :
    compareFilter catalog op name (Scale.toJson q) = .range c.stored op (Scale.toJson q) := by
  have htyped : typedColumns catalog name (Scale.toJson q) = [c] := by
    rw [typedColumns, h.scalars]
    show List.filter (fun c => c.type == .number || c.type == .presence) [c] = [c]
    simp [h.type]
  have hnull : (Scale.toJson q : Json).isNull = false := rfl
  rcases hop with rfl | rfl
  · simp only [compareFilter, hnull, htyped]
    rfl
  · simp only [compareFilter, hnull, htyped]
    rfl

/-- A document passes a comparison with a number when its own number compares so. -/
theorem satisfied_compare {op : CompareOp} (hop : op = .lt ∨ op = .gt) (q : ℚ) :
    satisfied catalog (Filter.passes doc)
        (.compare op (.var name) (.literal (Scale.toJson q))) = true
      ↔ ∃ x ∈ doc c.stored, op.holds (compare x q) = true := by
  have hfilter : (Expr.compare op (.var name) (.literal (Scale.toJson q))).filter catalog
      = .ok (.range c.stored op (Scale.toJson q)) := by
    rw [Expr.filter, h.compareFilter_eq hop]
  rw [satisfied_eq hfilter]
  show ((doc c.stored).any fun x => (Scale.ofJson? (Scale.toJson q) : Option ℚ).any fun b =>
    op.holds (compare x b)) = true ↔ _
  rw [Scale.ofJson?_toJson, Option.any_eq_true]
  rfl

/-- A document passes a test for absence when it has no number. -/
theorem satisfied_missing :
    satisfied catalog (Filter.passes doc) (.missing (.var name)) = true ↔ doc c.stored = none := by
  have hfilter : (Expr.missing (.var name)).filter catalog = .ok (.not (.present c.stored)) := by
    rw [Expr.filter, presentFilter, h.leaves]
    rfl
  rw [satisfied_eq hfilter, Filter.meets_not]
  show (!(doc c.stored).isSome) = true ↔ _
  simp

end Catalog.OneNumber

/-! ## Overlaps -/

namespace SpanEdge

variable {first last : String} {begins ends : Column}

def endsAfter (last : String) (l : ℚ) : Expr :=
  .or [.missing (.var last), .compare .gt (.var last) (.literal (Scale.toJson l))]

theorem condition_endsAfter (last : String) (l : ℚ) : Condition (endsAfter last l) := by
  refine .or ?_
  simp only [List.forall_mem_cons]
  exact ⟨.missing _, .compare _ _ _, by simp⟩

theorem satisfied_endsAfter (h : catalog.OneNumber last ends) (l : ℚ) :
    satisfied catalog (Filter.passes doc) (endsAfter last l) = true
      ↔ ∀ y ∈ doc ends.stored, l < y := by
  have hterms := (condition_of_iff .disjunction).mp (condition_endsAfter last l)
  rw [endsAfter, satisfied_or catalog _ fun t ht => (hterms t ht).filterable catalog]
  simp only [List.mem_cons, List.not_mem_nil, or_false, exists_eq_or_imp, exists_eq_left]
  rw [h.satisfied_missing, h.satisfied_compare (Or.inr rfl)]
  simp only [CompareOp.holds_gt_iff]
  cases doc ends.stored with
  | none => simp
  | some y => simp

theorem condition_overlap (first last : String) (l u : ℚ) :
    Condition (overlap { min := .var first, max := .var last } l u) := by
  refine .and ?_
  simp only [List.forall_mem_cons]
  exact ⟨.compare _ _ _, condition_endsAfter last l, by simp⟩

/-- **The condition of a partition compares the beginning of each with the end of the other.** -/
theorem satisfied_overlap (hfirst : catalog.OneNumber first begins)
    (hlast : catalog.OneNumber last ends) (l u : ℚ) :
    satisfied catalog (Filter.passes doc)
        (overlap { min := .var first, max := .var last } l u).fold = true
      ↔ (∃ x ∈ doc begins.stored, x < u) ∧ ∀ y ∈ doc ends.stored, l < y := by
  have hcondition := condition_overlap first last l u
  -- folding keeps what the condition matches, so it is read as it was written
  rw [(hcondition.fold catalog (Filter.passes doc)).2]
  show satisfied catalog (Filter.passes doc)
    (.and [.compare .lt (.var first) (.literal (Scale.toJson u)), endsAfter last l]) = true ↔ _
  have hterms : ∀ t ∈ [.compare .lt (.var first) (.literal (Scale.toJson u)), endsAfter last l],
      Condition t := (condition_of_iff .conjunction).mp hcondition
  rw [satisfied_and catalog _ fun t ht => (hterms t ht).filterable catalog]
  simp only [List.forall_mem_cons, hfirst.satisfied_compare (Or.inl rfl), CompareOp.holds_lt_iff,
    satisfied_endsAfter hlast]
  simp

/-! ## The edge of a span -/

variable (catalog first last) in
/-- The edge of a span between two fields asks for the filters of its conditions. -/
theorem exists_ofSteps (s : Steps ℚ) :
    ∃ e : SpanEdge ℚ, ofSteps catalog { min := .var first, max := .var last } s = .ok e
      ∧ ∀ (inner : Aggs) (test : Filter → Bool),
        (∀ i, (e.encode inner).admits test (Marker.joinKey i) = true ↔ i < s.count
          ∧ satisfied catalog test (overlap { min := .var first, max := .var last }
              (s.lower i) (s.upper i)).fold = true)
        ∧ (e.encode inner).admits test "_missing"
          = satisfied catalog test (.missing (.var first)) := by
  have hfilterable (i : ℕ) : Filterable catalog
      (overlap { min := .var first, max := .var last } (s.lower i) (s.upper i)).fold :=
    ((condition_overlap first last _ _).fold catalog fun _ => true).1.filterable catalog
  -- the conditions of all partitions have filters, which the edge asks for
  choose filterOf hfilterOf using hfilterable
  have hoverlaps : ((List.range s.count).mapM fun i =>
      (overlap { min := .var first, max := .var last } (s.lower i) (s.upper i)).fold.filter catalog)
      = .ok ((List.range s.count).map filterOf) :=
    Results.mapM_of_eq_ok fun i _ => hfilterOf i
  obtain ⟨missing, hmissing⟩ := (Condition.missing first).filterable catalog
  refine ⟨⟨s, (List.range s.count).map filterOf, missing⟩, ?_, fun inner test => ⟨fun i => ?_, ?_⟩⟩
  · exact Results.bind_eq_ok.mpr ⟨_, hoverlaps, Results.bind_eq_ok.mpr ⟨_, hmissing, rfl⟩⟩
  · show ((joinAndMissing inner ((List.range s.count).map filterOf) missing).filter?
      (Marker.joinKey i)).any _ = true ↔ _
    rw [Aggs.filter?_joinKey, satisfied_eq (hfilterOf i), List.getElem?_map]
    by_cases hi : i < s.count
    · rw [List.getElem?_range hi]
      simp [hi]
    · rw [List.getElem?_eq_none (by rw [List.length_range]; omega)]
      simp [hi]
  · show ((joinAndMissing inner ((List.range s.count).map filterOf) missing).filter?
      "_missing").any _ = _
    rw [Aggs.filter?_missing, satisfied_eq hmissing, Option.any_some]

/-- **A span counts in exactly the partitions that it overlaps.** The edge of a span between two
fields, each of which has one column of numbers, over an accepted range: a document that begins, and
ends later or never, satisfies the filter of a partition exactly when its span and the partition
meet, in partitions next to each other. It satisfies that of the missing values exactly when it does
not begin, and then it satisfies no other. -/
theorem counts_overlapped (hfirst : catalog.OneNumber first begins)
    (hlast : catalog.OneNumber last ends) {s : Steps ℚ} {limit : ℕ}
    (h : s.fault? limit = none) :
    ∃ e : SpanEdge ℚ, ofSteps catalog { min := .var first, max := .var last } s = .ok e
      ∧ ∀ (inner : Aggs) (doc : String → Option ℚ),
        (∀ x ∈ doc begins.stored, (∀ y ∈ doc ends.stored, x < y) →
          (∀ i, (e.encode inner).admits (Filter.passes doc) (Marker.joinKey i) = true
            ↔ i < s.count ∧ Interval.Meets { lower := some x, upper := doc ends.stored }
                { lower := some (s.lower i), upper := some (s.upper i) })
          ∧ ∀ i j k, i ≤ j → j ≤ k →
              (e.encode inner).admits (Filter.passes doc) (Marker.joinKey i) = true →
              (e.encode inner).admits (Filter.passes doc) (Marker.joinKey k) = true →
              (e.encode inner).admits (Filter.passes doc) (Marker.joinKey j) = true)
        ∧ ((e.encode inner).admits (Filter.passes doc) "_missing" = true
          ↔ doc begins.stored = none)
        ∧ (doc begins.stored = none →
          ∀ i, (e.encode inner).admits (Filter.passes doc) (Marker.joinKey i) = false) := by
  obtain ⟨hs, -⟩ := (Steps.fault?_eq_none_iff s).mp h
  obtain ⟨e, he, hadmits⟩ := exists_ofSteps catalog first last s
  refine ⟨e, he, fun inner doc => ?_⟩
  obtain ⟨hjoin, hmissing⟩ := hadmits inner (Filter.passes doc)
  simp only [satisfied_overlap hfirst hlast] at hjoin
  refine ⟨fun x hx hstop => ⟨fun i => ?_, fun i j k hij hjk hi hk => ?_⟩, ?_, fun hnone i => ?_⟩
  · -- both begin somewhere and end later or never, so comparing their ends decides
    rw [hjoin, Option.mem_def.mp hx]
    refine and_congr_right fun hi => ?_
    rw [Interval.meets_iff hstop (Steps.lower_lt_upper hs hi)]
    simp
  · -- partitions in between begin before the later one, and end after the earlier one
    rw [hjoin] at hi hk ⊢
    obtain ⟨-, ⟨b, hb, hbegins⟩, -⟩ := hi
    obtain ⟨hcount, -, hends⟩ := hk
    exact ⟨hjk.trans_lt hcount, ⟨b, hb, hbegins.trans_le (Steps.upper_mono hs hij)⟩,
      fun y hy => (Steps.lower_mono hs hjk).trans_lt (hends y hy)⟩
  · rw [hmissing, hfirst.satisfied_missing]
  · rw [← Bool.not_eq_true, hjoin, hnone]
    simp

end SpanEdge

end

namespace SpanEdge

def arrival : Column :=
  { name := "arrival", stored := "arrival", mapping := "double", type := .number,
    nestedPath := ["."] }

def departure : Column :=
  { name := "departure", stored := "departure.~n~", mapping := "double", type := .number,
    nestedPath := ["."] }

def visits : Catalog := .overRoot "visits" [arrival, departure]

/-- The hours from 0 up to 10, in partitions of 3 hours and one of the last hour. -/
def hours : Steps ℚ := { min := 0, max := 10, interval := 3 }

def visit : String → Option ℚ
  | "arrival" => some 2
  | "departure.~n~" => some 7
  | _ => none

/-- A visit counts in the three partitions that it overlaps. -/
theorem counts_overlapped_visit : visits.OneNumber "arrival" arrival
    ∧ visits.OneNumber "departure" departure ∧ hours.fault? 4 = none
    ∧ ∃ e : SpanEdge ℚ,
      ofSteps visits { min := .var "arrival", max := .var "departure" } hours = .ok e
      ∧ ∀ (inner : Aggs) (i : ℕ),
        (e.encode inner).admits (Filter.passes visit) (Marker.joinKey i) = true ↔ i < 3 := by
  have hfirst : visits.OneNumber "arrival" arrival := ⟨rfl, rfl, rfl⟩
  have hlast : visits.OneNumber "departure" departure := ⟨rfl, rfl, rfl⟩
  have haccepted : hours.fault? 4 = none := by decide +kernel
  refine ⟨hfirst, hlast, haccepted, ?_⟩
  obtain ⟨e, he, hcounts⟩ := counts_overlapped hfirst hlast haccepted
  refine ⟨e, he, fun inner i => ?_⟩
  have hlater : ∀ y ∈ visit departure.stored, 2 < y := by
    rintro _ ⟨⟩
    norm_num
  have hcount : hours.count = 4 := by decide +kernel
  have hmeets (hi : i < hours.count) : _ ↔ _ :=
    Interval.meets_iff hlater (Steps.lower_lt_upper (s := hours) (by decide +kernel) hi)
  rw [((hcounts inner visit).1 2 rfl hlater).1 i]
  constructor
  · rintro ⟨hi, hmeet⟩
    by_contra hlt
    -- the visit ends where the last partition begins
    have hthree : i = 3 := by omega
    subst hthree
    exact absurd (((hmeets hi).mp hmeet).2 7 rfl) (by decide +kernel)
  · intro hi
    have hi' : i < hours.count := by omega
    refine ⟨hi', (hmeets hi').mpr ?_⟩
    obtain rfl | rfl | rfl : i = 0 ∨ i = 1 ∨ i = 2 := by omega
    · decide +kernel
    · decide +kernel
    · decide +kernel

end SpanEdge

end Tabula
