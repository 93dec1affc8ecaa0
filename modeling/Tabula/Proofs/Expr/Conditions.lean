import Tabula.Proofs.Expr.Connectives
import Tabula.Proofs.Expr.Filters

/-!
# Folding keeps what a condition matches

A condition is made of literals and tests of single fields by conjunction, disjunction and negation
(`Condition`). It has a filter over any catalog, and so has what it folds to, and the two filters
match the same documents, whatever their clauses match (`fold_satisfied`). What is matched is kept
by each step of folding, whatever the terms are, as long as they have filters: by a connective over
folded terms (`joins_fold`) and by the negation of any term but null (`satisfied_foldNot`).
-/

set_option autoImplicit false

namespace Tabula.Expr

/-! ## Conditions -/

/-- Literals other than null, tests of single fields, and what the connectives make of them. -/
inductive Condition : Expr → Prop
  | literal {v : Json} (h : v.isNull = false) : Condition (.literal v)
  | compare (op : CompareOp) (name : String) (v : Json) :
      Condition (.compare op (.var name) (.literal v))
  | compareTo (op : CompareOp) (name : String) (v : Json) :
      Condition (.compare op (.literal v) (.var name))
  | present (name : String) : Condition (.present (.var name))
  | missing (name : String) : Condition (.missing (.var name))
  | startsWith (name start : String) : Condition (.startsWith (.var name) start)
  | oneOf (name : String) (values : List Json) : Condition (.oneOf (.var name) values)
  | and {ts : List Expr} (h : ∀ t ∈ ts, Condition t) : Condition (.and ts)
  | or {ts : List Expr} (h : ∀ t ∈ ts, Condition t) : Condition (.or ts)
  | not {t : Expr} (h : Condition t) : Condition (.not t)

theorem Condition.ne_null {t : Expr} (h : Condition t) : t ≠ .null := by
  rintro rfl
  cases h with
  | literal hnull => cases hnull

theorem condition_of_iff (c : Connective) {ts : List Expr} :
    Condition (c.of ts) ↔ ∀ t ∈ ts, Condition t := by
  cases c with
  | conjunction => exact ⟨fun h => by cases h; assumption, .and⟩
  | disjunction => exact ⟨fun h => by cases h; assumption, .or⟩

theorem condition_fold (c : Connective) {ts : List Expr} (h : ∀ t ∈ ts, Condition t) :
    Condition (c.fold ts) := by
  cases hends : ts.any c.ends with
  | true =>
      rw [c.fold_of_ends hends]
      exact .literal rfl
  | false =>
      -- what a term contributes is a part of it, or the term itself
      have hterms : ∀ u ∈ ts.flatMap c.terms, Condition u := by
        intro u hu
        obtain ⟨t, ht, hu⟩ := List.mem_flatMap.mp hu
        rcases c.terms_cases t with ⟨inner, rfl⟩ | hself | ⟨hnil, -⟩
        · rw [Connective.terms_of] at hu
          exact (condition_of_iff c).mp (h _ ht) u hu
        · rw [hself, List.mem_singleton] at hu
          exact hu ▸ h t ht
        · rw [hnil] at hu
          cases hu
      rw [c.fold_of_not_ends hends]
      match hkept : ts.flatMap c.terms, hterms with
      | [], _ => exact .literal rfl
      | [t], hterms => exact hterms t List.mem_cons_self
      | t :: u :: rest, hterms => exact (condition_of_iff c).mpr hterms

theorem condition_foldNot {t : Expr} (h : Condition t) : Condition (foldNot t) := by
  rcases foldNot_cases t with ⟨b, rfl⟩ | rfl | ⟨u, rfl⟩ | hnot
  · exact .literal rfl
  · exact absurd rfl h.ne_null
  · cases h with
    | not hu => exact hu
  · rw [hnot]
    exact .not h

/-! ## What a filter matches -/

section Filters

variable (catalog : Catalog) (test : Filter → Bool)

def Filterable (e : Expr) : Prop := ∃ f, e.filter catalog = .ok f

/-- Whether the filter of an expression is satisfied, by the test of its clauses. -/
def satisfied (e : Expr) : Bool :=
  match e.filter catalog with
  | .ok f => f.meets test
  | .error _ => false

variable {catalog test}

theorem satisfied_eq {e : Expr} {f : Filter} (h : e.filter catalog = .ok f) :
    satisfied catalog test e = f.meets test := by rw [satisfied, h]

theorem filterable_literal (v : Json) : Filterable catalog (.literal v) := ⟨_, rfl⟩

theorem filters_eq (ts : List Expr) : filters catalog ts = ts.mapM (filter catalog) := by
  induction ts with
  | nil => rfl
  | cons t ts ih =>
      rw [filters, ih, List.mapM_cons]
      rfl

/-- A connective has a filter exactly when each of its terms has one. -/
theorem filterable_of_iff (c : Connective) {ts : List Expr} :
    Filterable catalog (c.of ts) ↔ ∀ t ∈ ts, Filterable catalog t := by
  refine Iff.trans ?_ Results.exists_mapM_iff
  rw [← filters_eq]
  cases c with
  | conjunction =>
      rw [Filterable, Connective.of, filter]
      exact Results.exists_bind_ok_iff
  | disjunction =>
      rw [Filterable, Connective.of, filter]
      exact Results.exists_bind_ok_iff

theorem filterable_not_iff {t : Expr} : Filterable catalog (.not t) ↔ Filterable catalog t := by
  rw [Filterable, Filterable, filter]
  exact Results.exists_bind_ok_iff

variable (catalog test)

theorem Condition.filterable {e : Expr} (h : Condition e) : Filterable catalog e := by
  induction h with
  | and _ ih => exact (filterable_of_iff .conjunction).mpr ih
  | or _ ih => exact (filterable_of_iff .disjunction).mpr ih
  | not _ ih => exact filterable_not_iff.mpr ih
  | _ => exact ⟨_, rfl⟩

theorem exists_filters_satisfied {ts : List Expr} (h : ∀ t ∈ ts, Filterable catalog t) :
    ∃ fs, filters catalog ts = .ok fs
      ∧ fs.all (Filter.meets test) = ts.all (satisfied catalog test)
      ∧ fs.any (Filter.meets test) = ts.any (satisfied catalog test) :=
  exists_filters fun t ht => (h t ht).imp fun _ hf => ⟨hf, (satisfied_eq hf).symm⟩

theorem satisfied_bool (b : Bool) : satisfied catalog test (.literal (.bool b)) = b := by
  cases b with
  | true => exact satisfied_eq (f := .matchAll) rfl
  | false => exact (satisfied_eq (f := .matchNone) rfl).trans (Filter.meets_matchNone test)

theorem satisfied_null : satisfied catalog test .null = false :=
  (satisfied_eq (f := .matchNone) rfl).trans (Filter.meets_matchNone test)

theorem satisfied_oneOf_nil (name : String) :
    satisfied catalog test (.oneOf (.var name) []) = false := by
  have hnone : oneOfFilter catalog name [] = .matchNone :=
    congrArg Filter.anyOf (List.filterMap_eq_nil_iff.mpr fun _ _ => rfl)
  have hfilter : (Expr.oneOf (.var name) []).filter catalog = .ok .matchNone := by
    rw [filter, hnone]
  rw [satisfied_eq hfilter, Filter.meets_matchNone]

theorem satisfied_not {t : Expr} (h : Filterable catalog t) :
    satisfied catalog test (.not t) = !satisfied catalog test t := by
  obtain ⟨f, hf⟩ := h
  have hnot : (Expr.not t).filter catalog = .ok (.not f) := by
    rw [filter, hf]
    rfl
  rw [satisfied_eq hnot, satisfied_eq hf, Filter.meets_not]

/-- One term decides what terms joined match. -/
theorem satisfied_of (c : Connective) {ts : List Expr} (h : ∀ t ∈ ts, Filterable catalog t) :
    satisfied catalog test (c.of ts) = c.decided
      ↔ ∃ t ∈ ts, satisfied catalog test t = c.decided := by
  obtain ⟨fs, hfs, hall, hany⟩ := exists_filters_satisfied catalog test h
  cases c with
  | conjunction =>
      have hf : (Expr.and ts).filter catalog = .ok (.all fs) := by
        rw [filter, hfs]
        rfl
      rw [Connective.of, satisfied_eq hf, Filter.meets_all, hall]
      exact List.all_eq_false.trans (by simp [Connective.decided])
  | disjunction =>
      have hf : (Expr.or ts).filter catalog = .ok (.anyOf fs) := by
        rw [filter, hfs]
        rfl
      rw [Connective.of, satisfied_eq hf, Filter.meets_anyOf, hany]
      exact List.any_eq_true

theorem satisfied_and {ts : List Expr} (h : ∀ t ∈ ts, Filterable catalog t) :
    satisfied catalog test (.and ts) = true ↔ ∀ t ∈ ts, satisfied catalog test t = true := by
  have hfalse : satisfied catalog test (.and ts) = false
      ↔ ∃ t ∈ ts, satisfied catalog test t = false := satisfied_of catalog test .conjunction h
  rw [← Bool.not_eq_false, hfalse]
  simp

theorem satisfied_or {ts : List Expr} (h : ∀ t ∈ ts, Filterable catalog t) :
    satisfied catalog test (.or ts) = true ↔ ∃ t ∈ ts, satisfied catalog test t = true :=
  satisfied_of catalog test .disjunction h

/-! ## Steps -/

/-- A term that has a filter and matches what several terms do when a connective joins them. -/
structure Joins (c : Connective) (ts : List Expr) (e : Expr) : Prop where
  filterable : Filterable catalog e
  decided_iff : satisfied catalog test e = c.decided
    ↔ ∃ t ∈ ts, satisfied catalog test t = c.decided

theorem joins_of (c : Connective) {ts : List Expr} (h : ∀ t ∈ ts, Filterable catalog t) :
    Joins catalog test c ts (c.of ts) :=
  ⟨(filterable_of_iff c).mpr h, satisfied_of catalog test c h⟩

theorem joins_joined (c : Connective) {kept : List Expr} (h : ∀ t ∈ kept, Filterable catalog t) :
    Joins catalog test c kept (c.joined kept) := by
  match kept with
  | [] =>
      refine ⟨filterable_literal _, ?_⟩
      rw [Connective.joined, satisfied_bool]
      simp
  | [t] => exact ⟨h t List.mem_cons_self, by simp [Connective.joined]⟩
  | t :: u :: rest => exact joins_of catalog test c h

/-- A term that decides the answer matches what it decides. -/
theorem satisfied_of_ends (c : Connective) {t : Expr} (h : c.ends t = true) :
    satisfied catalog test t = c.decided := by
  rcases c.eq_of_ends h with rfl | rfl
  · exact satisfied_bool catalog test c.decided
  · cases c with
    | conjunction => exact satisfied_null catalog test
    | disjunction => cases h

/-- A term that contributes nothing, and decides nothing, matches what none of no terms does. -/
theorem satisfied_of_terms_nil (c : Connective) {t : Expr} (hnil : c.terms t = [])
    (h : t = .literal (.bool !c.decided) ∨ t = .null) :
    satisfied catalog test t = !c.decided := by
  rcases h with rfl | rfl
  · exact satisfied_bool catalog test _
  · cases c with
    | conjunction => cases hnil
    | disjunction => exact satisfied_null catalog test

/-- A term matches what the terms do that it contributes. -/
theorem joins_terms (c : Connective) {t : Expr} (h : Filterable catalog t) :
    (∀ u ∈ c.terms t, Filterable catalog u) ∧ Joins catalog test c (c.terms t) t := by
  rcases c.terms_cases t with ⟨ts, rfl⟩ | hself | ⟨hnil, ht⟩
  · rw [Connective.terms_of]
    have hts := (filterable_of_iff c).mp h
    exact ⟨hts, joins_of catalog test c hts⟩
  · rw [hself]
    exact ⟨List.forall_mem_singleton.mpr h, h, by simp⟩
  · refine ⟨by simp [hnil], h, ?_⟩
    rw [satisfied_of_terms_nil catalog test c hnil ht, hnil]
    simp

/-- **A folded connective matches what the connective does.** -/
theorem joins_fold (c : Connective) {ts : List Expr} (h : ∀ t ∈ ts, Filterable catalog t) :
    Joins catalog test c ts (c.fold ts) := by
  cases hends : ts.any c.ends with
  | true =>
      obtain ⟨t, ht, hend⟩ := List.any_eq_true.mp hends
      rw [c.fold_of_ends hends]
      exact ⟨filterable_literal _,
        iff_of_true (satisfied_bool _ _ _) ⟨t, ht, satisfied_of_ends catalog test c hend⟩⟩
  | false =>
      -- no term decides, so that those are joined that are left
      have hterms : ∀ u ∈ ts.flatMap c.terms, Filterable catalog u := by
        intro u hu
        obtain ⟨t, ht, hu⟩ := List.mem_flatMap.mp hu
        exact (joins_terms catalog test c (h t ht)).1 u hu
      obtain ⟨hfilter, hdecided⟩ := joins_joined catalog test c hterms
      rw [c.fold_of_not_ends hends]
      refine ⟨hfilter, hdecided.trans ?_⟩
      constructor
      · rintro ⟨u, hu, hsat⟩
        obtain ⟨t, ht, hu⟩ := List.mem_flatMap.mp hu
        exact ⟨t, ht, (joins_terms catalog test c (h t ht)).2.decided_iff.mpr ⟨u, hu, hsat⟩⟩
      · rintro ⟨t, ht, hsat⟩
        obtain ⟨u, hu, hsat⟩ := (joins_terms catalog test c (h t ht)).2.decided_iff.mp hsat
        exact ⟨u, List.mem_flatMap.mpr ⟨t, ht, hu⟩, hsat⟩

/-- **A folded negation matches what the negation does**, of any term but null: null matches
nothing, and nor does its folded negation. -/
theorem satisfied_foldNot {t : Expr} (h : Filterable catalog t) (hnull : t ≠ .null) :
    satisfied catalog test (foldNot t) = !satisfied catalog test t := by
  rcases foldNot_cases t with ⟨b, rfl⟩ | rfl | ⟨u, rfl⟩ | hnot
  · rw [foldNot, satisfied_bool, satisfied_bool]
  · exact absurd rfl hnull
  · rw [foldNot, satisfied_not catalog test (filterable_not_iff.mp h), Bool.not_not]
  · rw [hnot, satisfied_not catalog test h]

/-! ## Folding -/

/-- A connective over conditions folds to a condition that matches the same, when its terms do. -/
theorem satisfied_fold_of (c : Connective) {ts : List Expr} (h : ∀ t ∈ ts, Condition t)
    (ih : ∀ t ∈ ts, Condition t.fold
      ∧ satisfied catalog test t.fold = satisfied catalog test t) :
    Condition (c.of ts).fold
      ∧ satisfied catalog test (c.of ts).fold = satisfied catalog test (c.of ts) := by
  have hfold : ∀ u ∈ ts.map Expr.fold, Condition u :=
    List.forall_mem_map.mpr fun t ht => (ih t ht).1
  have hdecided :=
    (joins_fold catalog test c fun u hu => (hfold u hu).filterable catalog).decided_iff
  rw [c.fold_of, foldAll_eq]
  refine ⟨condition_fold c hfold, ?_⟩
  have hiff : satisfied catalog test (c.fold (ts.map Expr.fold)) = c.decided
      ↔ satisfied catalog test (c.of ts) = c.decided := by
    rw [hdecided, satisfied_of catalog test c fun t ht => (h t ht).filterable catalog]
    constructor
    · rintro ⟨u, hu, hsat⟩
      obtain ⟨t, ht, rfl⟩ := List.mem_map.mp hu
      exact ⟨t, ht, (ih t ht).2.symm.trans hsat⟩
    · rintro ⟨t, ht, hsat⟩
      exact ⟨t.fold, List.mem_map_of_mem ht, (ih t ht).2.trans hsat⟩
  cases c <;> simpa [Connective.decided] using hiff

/-- **A condition folds to a condition that matches the same.** -/
theorem Condition.fold {e : Expr} (h : Condition e) :
    Condition e.fold ∧ satisfied catalog test e.fold = satisfied catalog test e := by
  induction h with
  | literal h => exact ⟨.literal h, rfl⟩
  | compare op name v => exact ⟨.compare op name v, rfl⟩
  | compareTo op name v => exact ⟨.compareTo op name v, rfl⟩
  | present name => exact ⟨.present name, rfl⟩
  | missing name => exact ⟨.missing name, rfl⟩
  | startsWith name start => exact ⟨.startsWith name start, rfl⟩
  | oneOf name values =>
      cases values with
      | nil =>
          -- there is no value to be, which folds to false
          refine ⟨.literal rfl, ?_⟩
          exact (satisfied_bool catalog test false).trans (satisfied_oneOf_nil _ _ name).symm
      | cons v vs => exact ⟨.oneOf name (v :: vs), rfl⟩
  | and h ih => exact satisfied_fold_of catalog test .conjunction h ih
  | or h ih => exact satisfied_fold_of catalog test .disjunction h ih
  | not h ih =>
      have hsat := satisfied_foldNot catalog test (ih.1.filterable catalog) ih.1.ne_null
      rw [Expr.fold]
      exact ⟨condition_foldNot ih.1,
        hsat.trans (by rw [ih.2, satisfied_not catalog test (h.filterable catalog)])⟩

end Filters

/-- **Folding keeps what the filter of a condition matches**, over any catalog and whatever the
clauses match: the condition has a filter, so has what it folds to, and the one is satisfied exactly
when the other is. -/
theorem fold_satisfied {e : Expr} (h : Condition e) (catalog : Catalog) (test : Filter → Bool) :
    ∃ f g, e.filter catalog = .ok f ∧ e.fold.filter catalog = .ok g
      ∧ f.meets test = g.meets test := by
  obtain ⟨hfold, hsat⟩ := h.fold catalog test
  obtain ⟨f, hf⟩ := h.filterable catalog
  obtain ⟨g, hg⟩ := hfold.filterable catalog
  refine ⟨f, g, hf, hg, ?_⟩
  calc f.meets test = satisfied catalog test e := (satisfied_eq hf).symm
    _ = satisfied catalog test e.fold := hsat.symm
    _ = g.meets test := satisfied_eq hg

/-- A negation over connectives in each other, with terms that change nothing. -/
def nestedCondition : Expr :=
  .not (.or [
    .and [.literal (.bool true), .not (.not (.compare .lt (.literal (.nat 5)) (.var "a")))],
    .oneOf (.var "a") [],
    .or [.missing (.var "b"), .literal (.str "b"), .startsWith (.var "a") "ab"]])

theorem condition_nestedCondition : Condition nestedCondition := by
  refine .not (.or ?_)
  simp only [List.forall_mem_cons]
  refine ⟨.and ?_, .oneOf _ _, .or ?_, by simp⟩
  · simp only [List.forall_mem_cons]
    exact ⟨.literal rfl, .not (.not (.compareTo _ _ _)), by simp⟩
  · simp only [List.forall_mem_cons]
    exact ⟨.missing _, .literal rfl, .startsWith _ _, by simp⟩

theorem fold_satisfied_nested : Condition nestedCondition
    ∧ nestedCondition.fold = .not (.or [.compare .lt (.literal (.nat 5)) (.var "a"),
        .missing (.var "b"), .literal (.str "b"), .startsWith (.var "a") "ab"])
    ∧ ∃ f g, nestedCondition.filter fieldsCatalog = .ok f
      ∧ nestedCondition.fold.filter fieldsCatalog = .ok g
      ∧ f.meets fieldsDocument.test = g.meets fieldsDocument.test :=
  ⟨condition_nestedCondition, rfl, fold_satisfied condition_nestedCondition _ _⟩

end Tabula.Expr
