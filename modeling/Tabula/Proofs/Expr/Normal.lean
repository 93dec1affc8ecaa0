import Tabula.Proofs.Expr.Connectives
import Tabula.Proofs.Expr.Folding
import Tabula.Proofs.Expr.Induction

/-!
# Folded expressions

What folding gives is in a form of its own (`Folded`): nothing in it can be computed, decided or
left out any more, at any depth (`folded_fold`). Each step of folding makes a folded expression of
folded operands: a connective (`Connective.folded_fold`), a test of one term (`folded_test`), and
the other steps one by one. On folded operands the steps have laws that they lack on others, such as
that two negations cancel (`foldNot_foldNot`), and folding again changes nothing (`Folded.fold_eq`).
-/

set_option autoImplicit false

namespace Tabula.Expr

/-! ## The form -/

/-- A term that a connective keeps as it is: no answer, no null, and not of the same connective. -/
structure Connective.Keeps (c : Connective) (t : Expr) : Prop where
  ne_bool : ∀ b, t ≠ .literal (.bool b)
  ne_null : t ≠ .null
  ne_of : ∀ ts, t ≠ c.of ts

/-- Expressions in which nothing is left to fold. -/
inductive Folded : Expr → Prop
  | literal (v : Json) : Folded (.literal v)
  | var (name : String) : Folded (.var name)
  | leaves (path : String) : Folded (.leaves path)
  | tuple {ts : List Expr} (h : ∀ t ∈ ts, Folded t) : Folded (.tuple ts)
  | compare {op : CompareOp} {a b : Expr} (ha : Folded a) (hb : Folded b)
      (hopen : (a.isLiteral && b.isLiteral) = false) : Folded (.compare op a b)
  | and {ts : List Expr} (h : ∀ t ∈ ts, Folded t) (hlength : 2 ≤ ts.length)
      (hkeeps : ∀ t ∈ ts, Connective.conjunction.Keeps t) : Folded (.and ts)
  | or {ts : List Expr} (h : ∀ t ∈ ts, Folded t) (hlength : 2 ≤ ts.length)
      (hkeeps : ∀ t ∈ ts, Connective.disjunction.Keeps t) : Folded (.or ts)
  | not {t : Expr} (h : Folded t) (hopen : foldNot t = .not t) : Folded (.not t)
  | present {t : Expr} (h : Folded t) (hopen : t.isLiteral = false) : Folded (.present t)
  | missing {t : Expr} (h : Folded t) (hopen : t.isLiteral = false) : Folded (.missing t)
  | startsWith {t : Expr} {start : String} (h : Folded t) (hopen : t.isLiteral = false) :
      Folded (.startsWith t start)
  | oneOf {t : Expr} {values : List Json} (h : Folded t) (hopen : t.isLiteral = false)
      (hvalues : values ≠ []) : Folded (.oneOf t values)
  | arith {op : ArithOp} {ts : List Expr} (h : ∀ t ∈ ts, Folded t)
      (hopen : foldArith op ts = .arith op ts) : Folded (.arith op ts)
  | coalesce {ts : List Expr} (h : ∀ t ∈ ts, Folded t) (hlength : 2 ≤ ts.length)
      (hcandidates : candidates ts = ts) : Folded (.coalesce ts)

theorem folded_of_iff (c : Connective) {ts : List Expr} :
    Folded (c.of ts) ↔ (∀ t ∈ ts, Folded t ∧ c.Keeps t) ∧ 2 ≤ ts.length := by
  have hsplit : (∀ t ∈ ts, Folded t ∧ c.Keeps t)
      ↔ (∀ t ∈ ts, Folded t) ∧ ∀ t ∈ ts, c.Keeps t := by
    simp only [imp_and, forall_and]
  rw [hsplit]
  cases c with
  | conjunction =>
      constructor
      · intro h
        cases h with
        | and h hlength hkeeps => exact ⟨⟨h, hkeeps⟩, hlength⟩
      · rintro ⟨⟨h, hkeeps⟩, hlength⟩
        exact .and h hlength hkeeps
  | disjunction =>
      constructor
      · intro h
        cases h with
        | or h hlength hkeeps => exact ⟨⟨h, hkeeps⟩, hlength⟩
      · rintro ⟨⟨h, hkeeps⟩, hlength⟩
        exact .or h hlength hkeeps

/-! ## Connectives -/

namespace Connective

variable (c : Connective)

theorem Keeps.ends {c : Connective} {t : Expr} (h : c.Keeps t) : c.ends t = false := by
  cases hends : c.ends t with
  | false => rfl
  | true =>
      rcases c.eq_of_ends hends with heq | heq
      · exact absurd heq (h.ne_bool _)
      · exact absurd heq h.ne_null

theorem Keeps.terms {c : Connective} {t : Expr} (h : c.Keeps t) : c.terms t = [t] := by
  rcases c.terms_cases t with ⟨ts, heq⟩ | hself | ⟨-, heq | heq⟩
  · exact absurd heq (h.ne_of ts)
  · exact hself
  · exact absurd heq (h.ne_bool _)
  · exact absurd heq h.ne_null

theorem keeps_terms {t : Expr} (h : Folded t) (hends : c.ends t = false) :
    ∀ u ∈ c.terms t, Folded u ∧ c.Keeps u := by
  rcases c.terms_cases t with ⟨ts, rfl⟩ | hself | ⟨hnil, -⟩
  · rw [terms_of]
    exact ((folded_of_iff c).mp h).1
  · rw [hself]
    refine List.forall_mem_singleton.mpr ⟨h, ?_, ?_, ?_⟩
    · rintro b rfl
      rw [c.terms_eq_nil (Or.inl ⟨b, rfl⟩) hends] at hself
      cases hself
    · rintro rfl
      rw [c.terms_eq_nil (Or.inr rfl) hends] at hself
      cases hself
    · rintro ts rfl
      rw [terms_of] at hself
      have hlength := ((folded_of_iff c).mp h).2
      rw [hself] at hlength
      simp at hlength
  · simp [hnil]

theorem folded_joined {kept : List Expr} (h : ∀ t ∈ kept, Folded t ∧ c.Keeps t) :
    Folded (c.joined kept) := by
  match kept with
  | [] => exact .literal _
  | [t] => exact (h t List.mem_cons_self).1
  | t :: u :: rest => exact (folded_of_iff c).mpr ⟨h, by simp⟩

theorem keeps_flatMap_terms {ts : List Expr} (h : ∀ t ∈ ts, Folded t)
    (hends : ts.any c.ends = false) : ∀ u ∈ ts.flatMap c.terms, Folded u ∧ c.Keeps u := by
  intro u hu
  obtain ⟨t, ht, hu⟩ := List.mem_flatMap.mp hu
  exact c.keeps_terms (h t ht) (by simpa using List.any_eq_false.mp hends t ht) u hu

theorem folded_fold {ts : List Expr} (h : ∀ t ∈ ts, Folded t) : Folded (c.fold ts) := by
  cases hends : ts.any c.ends with
  | true =>
      rw [c.fold_of_ends hends]
      exact .literal _
  | false =>
      rw [c.fold_of_not_ends hends]
      exact c.folded_joined (c.keeps_flatMap_terms h hends)

/-- Terms that a connective keeps are joined as they are. -/
theorem fold_of_keeps {ts : List Expr} (hkeeps : ∀ t ∈ ts, c.Keeps t) (hlength : 2 ≤ ts.length) :
    c.fold ts = c.of ts := by
  have hends : ts.any c.ends = false :=
    List.any_eq_false.mpr fun t ht => by simp [(hkeeps t ht).ends]
  have hterms : ts.flatMap c.terms = ts := by
    calc ts.flatMap c.terms = ts.flatMap (fun t => [t]) :=
          List.flatMap_congr fun t ht => (hkeeps t ht).terms
      _ = ts := List.flatMap_singleton' ts
  rw [c.fold_of_not_ends hends, hterms, c.joined_of_length hlength]

end Connective

/-! ## Tests of a term -/

/-- A step that gives a literal for each literal, and only writes its operator on other terms. -/
structure Tests (step write : Expr → Expr) : Prop where
  literal : ∀ v, ∃ w, step (.literal v) = .literal w
  other : ∀ t, t.isLiteral = false → step t = write t

theorem exists_literal {t : Expr} (h : t.isLiteral = true) : ∃ v, t = .literal v := by
  cases t with
  | literal v => exact ⟨v, rfl⟩
  | _ => cases h

theorem eq_null_of_isNull {t : Expr} (h : t.isNull = true) : t = .null := by
  cases t with
  | literal v => cases v <;> first | rfl | cases h
  | _ => cases h

theorem Tests.cases {step write : Expr → Expr} (h : Tests step write) (t : Expr) :
    (∃ v w, t = .literal v ∧ step t = .literal w) ∨ t.isLiteral = false ∧ step t = write t := by
  cases hliteral : t.isLiteral with
  | true =>
      obtain ⟨v, rfl⟩ := exists_literal hliteral
      obtain ⟨w, hw⟩ := h.literal v
      exact Or.inl ⟨v, w, rfl, hw⟩
  | false => exact Or.inr ⟨rfl, h.other t hliteral⟩

theorem tests_present : Tests foldPresent .present where
  literal _ := ⟨_, rfl⟩
  other t h := by cases t <;> first | rfl | cases h

theorem tests_missing : Tests foldMissing .missing where
  literal _ := ⟨_, rfl⟩
  other t h := by cases t <;> first | rfl | cases h

theorem tests_startsWith (start : String) : Tests (foldStartsWith start) (.startsWith · start) where
  literal v := by cases v <;> exact ⟨_, rfl⟩
  other t h := by cases t <;> first | rfl | cases h

theorem tests_oneOf {values : List Json} (hvalues : values ≠ []) :
    Tests (foldOneOf values) (.oneOf · values) where
  literal v := by
    cases values with
    | nil => exact absurd rfl hvalues
    | cons w ws => exact ⟨_, rfl⟩
  other t h := by
    cases values with
    | nil => exact absurd rfl hvalues
    | cons w ws => cases t <;> first | rfl | cases h

theorem folded_test {step write : Expr → Expr} (h : Tests step write) {t : Expr}
    (hwrite : t.isLiteral = false → Folded (write t)) : Folded (step t) := by
  rcases h.cases t with ⟨v, w, -, heq⟩ | ⟨hopen, heq⟩
  · rw [heq]
    exact .literal w
  · rw [heq]
    exact hwrite hopen

/-! ## Other steps -/

theorem foldNot_foldNot {t : Expr} (h : Folded t) : foldNot (foldNot t) = t := by
  rcases foldNot_cases t with ⟨b, rfl⟩ | rfl | ⟨u, rfl⟩ | hnot
  · cases b <;> rfl
  · rfl
  · cases h with
    | not _ hopen => exact hopen
  · rw [hnot, foldNot]

theorem folded_foldNot {t : Expr} (h : Folded t) : Folded (foldNot t) := by
  rcases foldNot_cases t with ⟨b, rfl⟩ | rfl | ⟨u, rfl⟩ | hnot
  · exact .literal _
  · exact .literal _
  · cases h with
    | not hu _ => exact hu
  · rw [hnot]
    exact .not h hnot

def foldComparison (op : CompareOp) : Expr → Expr → Expr
  | literal x, literal y => foldCompare op x y
  | a, b => .compare op a b

theorem fold_compare (op : CompareOp) (a b : Expr) :
    (compare op a b).fold = foldComparison op a.fold b.fold := by
  rw [fold]
  unfold foldComparison
  rfl

theorem exists_foldCompare (op : CompareOp) (x y : Json) :
    ∃ v, foldCompare op x y = .literal v := by
  have hdecided := decided_foldCompare op x y
  generalize foldCompare op x y = e at hdecided
  cases hdecided with
  | bool b => exact ⟨.bool b, rfl⟩
  | null => exact ⟨.null, rfl⟩

theorem foldComparison_cases (op : CompareOp) (a b : Expr) :
    (∃ x y, a = .literal x ∧ b = .literal y)
      ∨ (a.isLiteral && b.isLiteral) = false ∧ foldComparison op a b = .compare op a b := by
  cases hboth : a.isLiteral && b.isLiteral with
  | true =>
      obtain ⟨ha, hb⟩ := Bool.and_eq_true_iff.mp hboth
      obtain ⟨x, rfl⟩ := exists_literal ha
      obtain ⟨y, rfl⟩ := exists_literal hb
      exact Or.inl ⟨x, y, rfl, rfl⟩
  | false =>
      refine Or.inr ⟨rfl, ?_⟩
      unfold foldComparison
      split
      next => cases hboth
      next => rfl

theorem folded_foldComparison (op : CompareOp) {a b : Expr} (ha : Folded a) (hb : Folded b) :
    Folded (foldComparison op a b) := by
  rcases foldComparison_cases op a b with ⟨x, y, rfl, rfl⟩ | ⟨hopen, heq⟩
  · obtain ⟨v, hv⟩ := exists_foldCompare op x y
    rw [foldComparison, hv]
    exact .literal v
  · rw [heq]
    exact .compare ha hb hopen

/-- What is left of several candidates has no others left out. -/
theorem candidates_candidates (ts : List Expr) : candidates (candidates ts) = candidates ts := by
  induction ts with
  | nil => rfl
  | cons t ts ih =>
      rw [candidates]
      cases hnull : t.isNull with
      | true => rw [if_pos rfl, ih]
      | false =>
          cases hliteral : t.isLiteral with
          | true => simp [candidates, hnull, hliteral]
          | false => simp [candidates, hnull, hliteral, ih]

theorem candidates_sublist (ts : List Expr) : (candidates ts).Sublist ts := by
  induction ts with
  | nil => exact .slnil
  | cons t ts ih =>
      rw [candidates]
      split
      next => exact ih.cons t
      next =>
          split
          next => exact (List.nil_sublist ts).cons_cons t
          next => exact ih.cons_cons t

theorem folded_foldCoalesce {ts : List Expr} (h : ∀ t ∈ ts, Folded t) :
    Folded (foldCoalesce ts) := by
  have hcandidates : ∀ t ∈ candidates ts, Folded t := fun t ht =>
    h t ((candidates_sublist ts).subset ht)
  have hself := candidates_candidates ts
  unfold foldCoalesce
  generalize candidates ts = kept at hcandidates hself
  match kept with
  | [] => exact .literal _
  | [t] => exact hcandidates t List.mem_cons_self
  | t :: u :: rest => exact .coalesce hcandidates (by simp) hself

theorem foldArith_cases (op : ArithOp) (ts : List Expr) :
    (∃ x xs, ts.mapM asNumber? = some (x :: xs)
        ∧ foldArith op ts = .literal (.ofComputed (xs.foldl op.apply x)))
      ∨ foldArith op ts = .arith op ts := by
  unfold foldArith
  split
  next x xs hnumbers => exact Or.inl ⟨x, xs, hnumbers, rfl⟩
  next => exact Or.inr rfl

theorem isLiteral_of_mapM_asNumber? {ts : List Expr} {xs : List Float}
    (h : ts.mapM asNumber? = some xs) : ∀ t ∈ ts, t.isLiteral = true := by
  induction ts generalizing xs with
  | nil => simp
  | cons t ts ih =>
      rw [List.mapM_cons] at h
      cases ht : asNumber? t with
      | none =>
          rw [ht] at h
          cases h
      | some x =>
          cases hts : ts.mapM asNumber? with
          | none =>
              rw [ht, hts] at h
              cases h
          | some ys =>
              refine List.forall_mem_cons.mpr ⟨?_, ih hts⟩
              cases t with
              | literal v => rfl
              | _ => cases ht

theorem folded_foldArith (op : ArithOp) {ts : List Expr} (h : ∀ t ∈ ts, Folded t) :
    Folded (foldArith op ts) := by
  rcases foldArith_cases op ts with ⟨x, xs, -, heq⟩ | heq
  · rw [heq]
    exact .literal _
  · rw [heq]
    exact .arith h heq

/-! ## Folding -/

/-- **What folding gives has nothing left to fold.** -/
theorem folded_fold (e : Expr) : Folded e.fold := by
  have terms {ts : List Expr} (ih : ∀ t ∈ ts, Folded t.fold) : ∀ u ∈ foldAll ts, Folded u := by
    rw [foldAll_eq]
    exact List.forall_mem_map.mpr ih
  induction e with
  | literal v => exact .literal v
  | var name => exact .var name
  | leaves path => exact .leaves path
  | tuple ts ih =>
      rw [fold]
      exact .tuple (terms ih)
  | compare op a b iha ihb =>
      rw [fold_compare]
      exact folded_foldComparison op iha ihb
  | and ts ih =>
      rw [fold, Connective.foldAnd_eq]
      exact Connective.folded_fold _ (terms ih)
  | or ts ih =>
      rw [fold, Connective.foldOr_eq]
      exact Connective.folded_fold _ (terms ih)
  | not t ih =>
      rw [fold]
      exact folded_foldNot ih
  | present t ih =>
      rw [fold]
      exact folded_test tests_present (.present ih)
  | missing t ih =>
      rw [fold]
      exact folded_test tests_missing (.missing ih)
  | startsWith t start ih =>
      rw [fold]
      exact folded_test (tests_startsWith start) (.startsWith ih)
  | oneOf t values ih =>
      rw [fold]
      by_cases hvalues : values = []
      · rw [hvalues]
        exact .literal _
      · exact folded_test (tests_oneOf hvalues) fun hopen => .oneOf ih hopen hvalues
  | arith op ts ih =>
      rw [fold]
      exact folded_foldArith op (terms ih)
  | coalesce ts ih =>
      rw [fold]
      exact folded_foldCoalesce (terms ih)

theorem foldAll_eq_self {ts : List Expr} (h : ∀ t ∈ ts, t.fold = t) : foldAll ts = ts := by
  rw [foldAll_eq]
  exact (List.map_congr_left h).trans (List.map_id' ts)

/-- **Folding again changes nothing.** -/
theorem Folded.fold_eq {e : Expr} (h : Folded e) : e.fold = e := by
  induction h with
  | literal v => rfl
  | var name => rfl
  | leaves path => rfl
  | tuple _ ih => rw [fold, foldAll_eq_self ih]
  | @compare op a b ha hb hopen iha ihb =>
      -- two literals would have been compared
      rw [fold_compare, iha, ihb]
      rcases foldComparison_cases op a b with ⟨x, y, rfl, rfl⟩ | ⟨-, heq⟩
      · cases hopen
      · exact heq
  | and _ hlength hkeeps ih =>
      rw [fold, foldAll_eq_self ih, Connective.foldAnd_eq]
      exact Connective.fold_of_keeps .conjunction hkeeps hlength
  | or _ hlength hkeeps ih =>
      rw [fold, foldAll_eq_self ih, Connective.foldOr_eq]
      exact Connective.fold_of_keeps .disjunction hkeeps hlength
  | not _ hopen ih => rw [fold, ih, hopen]
  | present _ hopen ih => rw [fold, ih, tests_present.other _ hopen]
  | missing _ hopen ih => rw [fold, ih, tests_missing.other _ hopen]
  | startsWith _ hopen ih => rw [fold, ih, (tests_startsWith _).other _ hopen]
  | oneOf _ hopen hvalues ih => rw [fold, ih, (tests_oneOf hvalues).other _ hopen]
  | arith _ hopen ih => rw [fold, foldAll_eq_self ih, hopen]
  | coalesce _ hlength hcandidates ih =>
      rw [fold, foldAll_eq_self ih, foldCoalesce, hcandidates]
      split
      next => simp at hlength
      next => simp at hlength
      next => rfl

end Tabula.Expr
