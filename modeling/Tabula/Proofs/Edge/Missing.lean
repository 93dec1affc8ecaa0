import Tabula.Edge.Enumerated
import Tabula.Proofs.Edge.Joins
import Tabula.Proofs.Expr.Conditions
import Tabula.Proofs.Expr.Normal

/-!
# Documents of no partition

A set whose partitions have conditions asks for one filter for each of them, and for the documents
that satisfy none. The filter of these is that of the negated disjunction of all conditions, folded,
in which conditions may have lost terms, merged or cancelled with the negation. It is satisfied all
the same exactly when no filter of a partition is (`SetEdge.meets_missing_iff`).
-/

set_option autoImplicit false

namespace Tabula

/-! ## The negated disjunction of conditions -/

namespace Expr

theorem fold_disjunction_ne_null {ts : List Expr} (h : ∀ t ∈ ts, Folded t) :
    Connective.disjunction.fold ts ≠ .null := by
  cases hends : ts.any Connective.disjunction.ends with
  | true =>
      rw [Connective.fold_of_ends _ hends]
      intro hnull
      cases hnull
  | false =>
      have hkeeps := Connective.keeps_flatMap_terms .disjunction h hends
      rw [Connective.fold_of_not_ends _ hends]
      match hkept : ts.flatMap Connective.disjunction.terms, hkeeps with
      | [], _ => exact fun hnull => by cases hnull
      | [t], hkeeps => exact (hkeeps t List.mem_cons_self).2.ne_null
      | t :: u :: rest, _ => exact fun hnull => by cases hnull

/-- **The negated disjunction of folded terms, folded, matches exactly what none of the terms
does.** -/
theorem satisfied_fold_not_or (catalog : Catalog) (test : Filter → Bool) {ts : List Expr}
    (hfolded : ∀ t ∈ ts, Folded t) (hfilter : ∀ t ∈ ts, Filterable catalog t) :
    satisfied catalog test (Expr.not (.or ts)).fold = true
      ↔ ∀ t ∈ ts, satisfied catalog test t = false := by
  have hself : foldAll ts = ts := foldAll_eq_self fun t ht => (hfolded t ht).fold_eq
  have hfold : (Expr.not (.or ts)).fold = foldNot (Connective.disjunction.fold ts) := by
    rw [Expr.fold, Expr.fold, hself, Connective.foldOr_eq]
  obtain ⟨hjoined, hdecided⟩ := joins_fold catalog test .disjunction hfilter
  have hnot := satisfied_foldNot catalog test hjoined (fold_disjunction_ne_null hfolded)
  calc satisfied catalog test (Expr.not (.or ts)).fold = true
      ↔ satisfied catalog test (Connective.disjunction.fold ts) = false := by
        rw [hfold, hnot, Bool.not_eq_true']
    _ ↔ ¬ satisfied catalog test (Connective.disjunction.fold ts) = true := by
        rw [Bool.not_eq_true]
    _ ↔ ¬ ∃ t ∈ ts, satisfied catalog test t = true := not_congr hdecided
    _ ↔ ∀ t ∈ ts, satisfied catalog test t = false := by simp

/-- No term matches exactly when no filter, of those made of the terms, is satisfied. -/
theorem forall_satisfied_iff {catalog : Catalog} (test : Filter → Bool) {ts : List Expr}
    {fs : List Filter} (h : ts.mapM (Expr.filter catalog) = .ok fs) :
    (∀ t ∈ ts, satisfied catalog test t = false) ↔ ∀ f ∈ fs, f.meets test = false := by
  have hpairs := Results.mapM_eq_ok.mp h
  clear h
  induction hpairs with
  | nil => simp
  | cons hf _ ih =>
      rw [List.forall_mem_cons, List.forall_mem_cons, satisfied_eq hf]
      exact and_congr_right' ih

end Expr

/-! ## Sets -/

namespace SetEdge

open Tabula.Expr

variable {catalog : Catalog} {value : Option Expr} {partitions : List Partition}

theorem folded_condition {p : Partition} {e : Expr} (h : condition value p = .ok e) :
    Folded e := by
  unfold condition at h
  split at h
  next =>
      cases h
      exact folded_fold _
  next =>
      cases h
      exact folded_fold _
  next => cases h

/-- A set with a condition in it finds its partitions by the filters of all conditions. -/
theorem select_eq_ok (hwhere : ∃ p ∈ partitions, p.filter.isSome = true) {s : Selection}
    (h : select catalog value partitions = .ok s) :
    ∃ conditions filters missing, s = .byFilter filters missing
      ∧ partitions.mapM (condition value) = .ok conditions
      ∧ conditions.mapM (Expr.filter catalog) = .ok filters
      ∧ (Expr.not (.or conditions)).fold.filter catalog = .ok missing := by
  unfold select at h
  rw [if_pos (List.any_eq_true.mpr hwhere)] at h
  obtain ⟨conditions, hconditions, h⟩ := Results.bind_eq_ok.mp h
  obtain ⟨missing, hmissing, h⟩ := Results.bind_eq_ok.mp h
  obtain ⟨filters, hfilters, h⟩ := Results.bind_eq_ok.mp h
  cases h
  exact ⟨conditions, filters, missing, rfl, hconditions, hfilters, hmissing⟩

/-- **The partitions of a set and the missing values divide the documents**: where some partition
has a condition, each partition asks for a filter, and a document satisfies the filter of the
missing values exactly when it satisfies none of these, whatever its clauses match. -/
theorem meets_missing_iff (hwhere : ∃ p ∈ partitions, p.filter.isSome = true) {e : SetEdge}
    (h : ofPartitions catalog value partitions = .ok e) (inner : Aggs) (test : Filter → Bool) :
    (∀ i, ((e.encode inner).filter? (Marker.joinKey i)).isSome = true ↔ i < partitions.length)
      ∧ ∃ missing, (e.encode inner).filter? "_missing" = some missing
        ∧ (missing.meets test = true
          ↔ ∀ i f, (e.encode inner).filter? (Marker.joinKey i) = some f
            → f.meets test = false) := by
  obtain ⟨s, hselect, h⟩ := Results.bind_eq_ok.mp h
  cases h
  obtain ⟨conditions, filters, missing, rfl, hconditions, hfilters, hmissing⟩ :=
    select_eq_ok hwhere hselect
  have hfolded : ∀ t ∈ conditions, Folded t :=
    Results.forall_mem_of_mapM hconditions fun p _ t ht => folded_condition ht
  have hfilterable : ∀ t ∈ conditions, Filterable catalog t :=
    Results.exists_mapM_iff.mp ⟨filters, hfilters⟩
  have hlength : filters.length = partitions.length :=
    (Results.length_of_mapM hfilters).trans (Results.length_of_mapM hconditions)
  show (∀ i, ((joinAndMissing inner filters missing).filter? (Marker.joinKey i)).isSome = true ↔ _)
    ∧ ∃ m, (joinAndMissing inner filters missing).filter? "_missing" = some m ∧ (_
      ↔ ∀ i f, (joinAndMissing inner filters missing).filter? (Marker.joinKey i) = some f → _)
  simp only [Aggs.filter?_joinKey, Aggs.filter?_missing]
  constructor
  · intro i
    rw [← hlength, Option.isSome_iff_ne_none, ne_eq, List.getElem?_eq_none_iff, Nat.not_le]
  · refine ⟨missing, rfl, ?_⟩
    calc missing.meets test = true
        ↔ satisfied catalog test (Expr.not (.or conditions)).fold = true := by
          rw [satisfied_eq hmissing]
      _ ↔ ∀ t ∈ conditions, satisfied catalog test t = false :=
          satisfied_fold_not_or catalog test hfolded hfilterable
      _ ↔ ∀ f ∈ filters, f.meets test = false := forall_satisfied_iff test hfilters
      _ ↔ ∀ (i : Nat) (f : Filter), filters[i]? = some f → f.meets test = false := by
          simp only [List.mem_iff_getElem?, forall_exists_index]
          exact forall_comm

/-- Conditions with a disjunction to merge, a null to drop and two negations to cancel, and a value
beside them. -/
def mixedPartitions : List Partition :=
  [{ name := none, value := .str "low",
     filter := some (.or [.compare .lt (.var "a") (.literal (.nat 5)),
       .or [.missing (.var "a"), .literal (.bool false)]]) },
    { name := none, value := .str "never", filter := some (.literal .null) },
    { name := none, value := .str "known", filter := some (.not (.not (.present (.var "o.x")))) },
    { name := none, value := .str "abc", filter := none }]

theorem meets_missing_mixed : (∃ p ∈ mixedPartitions, p.filter.isSome = true)
    ∧ ∃ e, ofPartitions fieldsCatalog (some (.var "a")) mixedPartitions = .ok e
      ∧ (∀ i, ((e.encode []).filter? (Marker.joinKey i)).isSome = true ↔ i < 4)
      ∧ ∃ missing, (e.encode []).filter? "_missing" = some missing
        ∧ (missing.meets fieldsDocument.test = true
          ↔ ∀ i f, (e.encode []).filter? (Marker.joinKey i) = some f
            → f.meets fieldsDocument.test = false) :=
  have hwhere : ∃ p ∈ mixedPartitions, p.filter.isSome = true :=
    ⟨_, List.mem_cons_self, rfl⟩
  ⟨hwhere, _, rfl, @meets_missing_iff fieldsCatalog (some (.var "a")) mixedPartitions hwhere _ rfl
    [] fieldsDocument.test⟩

end SetEdge

end Tabula
