import Tabula.Proofs.Expr.Normal

/-!
# Folding before values are known

An expression may be folded first, or values put in place of its variables first. Each step of
folding says the same either way (`known_foldNot`, `known_foldArith`, `known_foldCoalesce`, …), but
for a connective that is left with one term: a connective takes null for no, and the term alone does
not (`known_fold_iff`). So folding early keeps what an expression comes to when no connective in it
is left with one term that comes to null (`Steady`), and an expression loses it in this way only, if
its operands do not (`fold_bind_fold`).
-/

set_option autoImplicit false

namespace Tabula.Expr

/-! ## Connectives on folded terms -/

namespace Connective

variable (c : Connective)

/-- Whether one term is all that a connective keeps of folded terms. -/
def Alone (ts : List Expr) (t : Expr) : Prop :=
  ts.any c.ends = false ∧ ts.flatMap c.terms = [t]

/-- Terms that were joined do not decide the answer, and contribute themselves. -/
theorem ends_terms_joined {kept : List Expr} (h : ∀ t ∈ kept, c.Keeps t) :
    c.ends (c.joined kept) = false ∧ c.terms (c.joined kept) = kept := by
  match kept with
  | [] => exact ⟨c.ends_neutral, c.terms_neutral⟩
  | [t] => exact ⟨(h t List.mem_cons_self).ends, (h t List.mem_cons_self).terms⟩
  | t :: u :: rest => exact ⟨c.ends_of _, c.terms_of _⟩

theorem ends_fold {ts : List Expr} (h : ∀ t ∈ ts, Folded t) :
    c.ends (c.fold ts) = ts.any c.ends := by
  cases hends : ts.any c.ends with
  | true =>
      rw [c.fold_of_ends hends]
      cases c <;> rfl
  | false =>
      rw [c.fold_of_not_ends hends]
      exact (c.ends_terms_joined fun u hu => (c.keeps_flatMap_terms h hends u hu).2).1

/-- Folded terms that were joined contribute what they contribute one by one. -/
theorem terms_fold {ts : List Expr} (h : ∀ t ∈ ts, Folded t) (hends : ts.any c.ends = false) :
    c.terms (c.fold ts) = ts.flatMap c.terms := by
  rw [c.fold_of_not_ends hends]
  exact (c.ends_terms_joined fun u hu => (c.keeps_flatMap_terms h hends u hu).2).2

/-- A connective depends on whether a term decides the answer and on what is contributed. -/
theorem fold_congr {ts us : List Expr} (hends : ts.any c.ends = us.any c.ends)
    (hterms : us.any c.ends = false → ts.flatMap c.terms = us.flatMap c.terms) :
    c.fold ts = c.fold us := by
  cases hus : us.any c.ends with
  | true => rw [c.fold_of_ends hus, c.fold_of_ends (hends.trans hus)]
  | false => rw [c.fold_of_not_ends hus, c.fold_of_not_ends (hends.trans hus), hterms hus]

/-- **One folded term joined is the term, but for null**, which is no as a term. -/
theorem fold_singleton_iff {t : Expr} (h : Folded t) : c.fold [t] = t ↔ t ≠ .null := by
  constructor
  · rintro heq rfl
    cases c <;> cases heq
  · intro hnull
    cases hends : [t].any c.ends with
    | true =>
        have hend : c.ends t = true := by simpa using hends
        rw [c.fold_of_ends hends, (c.eq_of_ends hend).resolve_right hnull]
    | false =>
        rw [c.fold_of_not_ends hends, List.flatMap_singleton]
        rcases c.terms_cases t with ⟨ts, rfl⟩ | hself | ⟨hnil, rfl | rfl⟩
        · rw [c.terms_of, c.joined_of_length ((folded_of_iff c).mp h).2]
        · rw [hself, joined]
        · rw [hnil, joined]
        · exact absurd rfl hnull

end Connective

/-! ## Known values -/

variable (value : String → Json)

/-- What an expression comes to when the values of its variables are known. -/
def known (e : Expr) : Expr := (e.bind value).fold

@[simp]
theorem known_literal (v : Json) : known value (.literal v) = .literal v := rfl

theorem map_known (ts : List Expr) : foldAll (bindAll value ts) = ts.map (known value) := by
  rw [bindAll_eq, foldAll_eq, List.map_map]
  rfl

theorem known_of (c : Connective) (ts : List Expr) :
    known value (c.of ts) = c.fold (ts.map (known value)) := by
  rw [← map_known, ← c.fold_of]
  cases c <;> rw [known, Connective.of, bind]

theorem known_tuple (ts : List Expr) :
    known value (.tuple ts) = .tuple (ts.map (known value)) := by
  rw [known, bind, fold, map_known]

theorem known_compare (op : CompareOp) (a b : Expr) :
    known value (.compare op a b) = foldComparison op (known value a) (known value b) := by
  rw [known, bind, fold_compare, known, known]

theorem known_not (t : Expr) : known value (.not t) = foldNot (known value t) := by
  rw [known, bind, fold, known]

theorem known_present (t : Expr) : known value (.present t) = foldPresent (known value t) := by
  rw [known, bind, fold, known]

theorem known_missing (t : Expr) : known value (.missing t) = foldMissing (known value t) := by
  rw [known, bind, fold, known]

theorem known_startsWith (t : Expr) (start : String) :
    known value (.startsWith t start) = foldStartsWith start (known value t) := by
  rw [known, bind, fold, known]

theorem known_oneOf (t : Expr) (values : List Json) :
    known value (.oneOf t values) = foldOneOf values (known value t) := by
  rw [known, bind, fold, known]

theorem known_arith (op : ArithOp) (ts : List Expr) :
    known value (.arith op ts) = foldArith op (ts.map (known value)) := by
  rw [known, bind, fold, map_known]

theorem known_coalesce (ts : List Expr) :
    known value (.coalesce ts) = foldCoalesce (ts.map (known value)) := by
  rw [known, bind, fold, map_known]

theorem known_of_isLiteral {t : Expr} (h : t.isLiteral = true) : known value t = t := by
  cases t with
  | literal v => rfl
  | _ => cases h

theorem folded_known (t : Expr) : Folded (known value t) := folded_fold _

/-! ## Steps on known values -/

theorem known_foldNot {t : Expr} : known value (foldNot t) = foldNot (known value t) := by
  rcases foldNot_cases t with ⟨b, rfl⟩ | rfl | ⟨u, rfl⟩ | heq
  · rfl
  · rfl
  · rw [foldNot, known_not, foldNot_foldNot (folded_known value u)]
  · rw [heq, known_not]

theorem known_test {step write : Expr → Expr} (h : Tests step write) {t : Expr}
    (hwrite : known value (write t) = step (known value t)) :
    known value (step t) = step (known value t) := by
  rcases h.cases t with ⟨v, w, rfl, heq⟩ | ⟨-, heq⟩
  · rw [heq, known_literal, known_literal, heq]
  · rw [heq, hwrite]

theorem known_foldComparison (op : CompareOp) (a b : Expr) :
    known value (foldComparison op a b) = foldComparison op (known value a) (known value b) := by
  rcases foldComparison_cases op a b with ⟨x, y, rfl, rfl⟩ | ⟨-, heq⟩
  · obtain ⟨v, hv⟩ := exists_foldCompare op x y
    rw [known_literal, known_literal, foldComparison, hv, known_literal]
  · rw [heq, known_compare]

theorem known_foldArith (op : ArithOp) (ts : List Expr) :
    known value (foldArith op ts) = foldArith op (ts.map (known value)) := by
  rcases foldArith_cases op ts with ⟨x, xs, hnumbers, heq⟩ | heq
  · have hself : ts.map (known value) = ts := by
      rw [List.map_congr_left fun t ht =>
        known_of_isLiteral value (isLiteral_of_mapM_asNumber? hnumbers t ht), List.map_id']
    rw [hself, heq, known_literal]
  · rw [heq, known_arith]

/-- Candidates that are left out before values are known are left out afterwards. -/
theorem candidates_map_known (ts : List Expr) :
    candidates ((candidates ts).map (known value)) = candidates (ts.map (known value)) := by
  induction ts with
  | nil => rfl
  | cons t ts ih =>
      cases hliteral : t.isLiteral with
      | true =>
          obtain ⟨v, rfl⟩ := exists_literal hliteral
          cases v <;> first | exact ih | rfl
      | false =>
          have hnull : t.isNull = false := by
            by_contra h
            rw [eq_null_of_isNull (eq_true_of_ne_false h)] at hliteral
            cases hliteral
          have hkept : candidates (t :: ts) = t :: candidates ts := by
            simp [candidates, hnull, hliteral]
          rw [hkept, List.map_cons, List.map_cons, candidates, candidates, ih]

theorem foldCoalesce_singleton (t : Expr) : foldCoalesce [t] = t := by
  cases hnull : t.isNull with
  | true =>
      rw [eq_null_of_isNull hnull]
      rfl
  | false => simp [foldCoalesce, candidates, hnull]

theorem known_foldCoalesce (ts : List Expr) :
    known value (foldCoalesce ts) = foldCoalesce (ts.map (known value)) := by
  have hcandidates : foldCoalesce (ts.map (known value))
      = foldCoalesce ((candidates ts).map (known value)) := by
    rw [foldCoalesce, foldCoalesce, candidates_map_known]
  rw [hcandidates, foldCoalesce]
  cases candidates ts with
  | nil => rfl
  | cons t rest =>
      cases rest with
      | nil => exact (foldCoalesce_singleton _).symm
      | cons u rest => exact known_coalesce value (t :: u :: rest)

/-! ## Connectives on known values -/

/-- **What a folded term contributes comes to what the term does.** -/
theorem contributes_known (c : Connective) {t : Expr} (ht : Folded t) (hends : c.ends t = false) :
    c.ends (known value t) = ((c.terms t).map (known value)).any c.ends
      ∧ (c.ends (known value t) = false
        → c.terms (known value t) = ((c.terms t).map (known value)).flatMap c.terms) := by
  have hknown (ts : List Expr) : ∀ u ∈ ts.map (known value), Folded u :=
    List.forall_mem_map.mpr fun u _ => folded_known value u
  rcases c.terms_cases t with ⟨ts, rfl⟩ | hself | ⟨hnil, hliteral⟩
  · rw [c.terms_of, known_of, c.ends_fold (hknown ts)]
    exact ⟨rfl, c.terms_fold (hknown ts)⟩
  · rw [hself]
    simp
  · have hfix : known value t = t := by rcases hliteral with rfl | rfl <;> rfl
    rw [hfix, hnil, hends]
    simp

/-- A connective comes to the same with what its terms contribute in place of them. -/
theorem fold_map_known (c : Connective) {ts : List Expr} (h : ∀ t ∈ ts, Folded t)
    (hends : ts.any c.ends = false) :
    c.fold (ts.map (known value)) = c.fold ((ts.flatMap c.terms).map (known value)) := by
  have hterm : ∀ t ∈ ts, c.ends t = false := fun t ht => by
    simpa using List.any_eq_false.mp hends t ht
  refine c.fold_congr ?_ fun hnone => ?_
  · rw [List.map_flatMap, List.any_flatMap, List.any_map, Bool.eq_iff_iff, List.any_eq_true,
      List.any_eq_true]
    exact exists_congr fun t => and_congr_right fun ht => by
      rw [Function.comp_apply, (contributes_known value c (h t ht) (hterm t ht)).1]
  · rw [List.map_flatMap, List.flatMap_assoc, List.flatMap_map]
    rw [List.map_flatMap, List.any_flatMap] at hnone
    refine List.flatMap_congr fun t ht => ?_
    obtain ⟨hsame, hterms⟩ := contributes_known value c (h t ht) (hterm t ht)
    exact hterms (hsame.trans (by simpa using List.any_eq_false.mp hnone t ht))

/-- **A folded connective comes to the connective of what its terms come to**, unless it keeps one
term alone that comes to null. -/
theorem known_fold_iff (c : Connective) {ts : List Expr} (h : ∀ t ∈ ts, Folded t) :
    known value (c.fold ts) = c.fold (ts.map (known value))
      ↔ ∀ t, c.Alone ts t → known value t ≠ .null := by
  cases hends : ts.any c.ends with
  | true =>
      have hknown : (ts.map (known value)).any c.ends = true := by
        obtain ⟨t, ht, hend⟩ := List.any_eq_true.mp hends
        refine List.any_eq_true.mpr ⟨known value t, List.mem_map_of_mem ht, ?_⟩
        rw [known_of_isLiteral value]
        · exact hend
        · rcases c.eq_of_ends hend with rfl | rfl <;> rfl
      rw [c.fold_of_ends hends, c.fold_of_ends hknown, known_literal]
      refine iff_of_true rfl fun t halone => ?_
      rw [Connective.Alone, hends] at halone
      cases halone.1
  | false =>
      rw [c.fold_of_not_ends hends, fold_map_known value c h hends]
      have halone (t : Expr) : c.Alone ts t ↔ ts.flatMap c.terms = [t] := by
        rw [Connective.Alone, hends]
        simp
      simp only [halone]
      -- what is left alone is the answer itself, also when it is null
      match ts.flatMap c.terms with
      | [] =>
          refine iff_of_true ?_ (by simp)
          cases c <;> rfl
      | [t] =>
          rw [Connective.joined, List.map_singleton, eq_comm,
            c.fold_singleton_iff (folded_known value t)]
          simp
      | t :: u :: rest =>
          refine iff_of_true ?_ (by simp)
          exact known_of value c (t :: u :: rest)

/-! ## Folding early -/

def parts : Expr → List Expr
  | literal _ | var _ | leaves _ => []
  | tuple ts | and ts | or ts | arith _ ts | coalesce ts => ts
  | compare _ a b => [a, b]
  | not t | present t | missing t | startsWith t _ | oneOf t _ => [t]

/-- Whether no connective keeps one term alone that comes to null, anywhere in an expression. -/
inductive Steady : Expr → Prop
  | intro {e : Expr} (parts : ∀ t ∈ e.parts, Steady t)
      (alone : ∀ (c : Connective) (ts : List Expr), e = c.of ts →
        ∀ t, c.Alone (foldAll ts) t → known value t ≠ .null) : Steady e

theorem Connective.of_inj {c c' : Connective} {ts ts' : List Expr} (h : c.of ts = c'.of ts') :
    c = c' ∧ ts = ts' := by
  cases c <;> cases c' <;> cases h <;> exact ⟨rfl, rfl⟩

theorem map_known_foldAll (ts : List Expr)
    (h : ∀ t ∈ ts, known value t.fold = known value t) :
    (foldAll ts).map (known value) = ts.map (known value) := by
  rw [foldAll_eq, List.map_map]
  exact List.map_congr_left h

/-- A connective whose terms come to the same after folding does so too, unless it keeps one term
alone that comes to null. -/
theorem known_fold_of_iff (c : Connective) {ts : List Expr}
    (h : ∀ t ∈ ts, known value t.fold = known value t) :
    known value (c.of ts).fold = known value (c.of ts)
      ↔ ∀ t, c.Alone (foldAll ts) t → known value t ≠ .null := by
  have hfolded : ∀ u ∈ foldAll ts, Folded u := by
    rw [foldAll_eq]
    exact List.forall_mem_map.mpr fun t _ => folded_fold t
  rw [c.fold_of, known_of, ← map_known_foldAll value ts h, known_fold_iff value c hfolded]

/-- Any other expression whose operands come to the same after folding does so too. -/
theorem known_fold_of_ne {e : Expr} (hne : ∀ c ts, e ≠ Connective.of c ts)
    (h : ∀ t ∈ e.parts, known value t.fold = known value t) :
    known value e.fold = known value e := by
  -- by the operator, on operands that come to the same before and after
  cases e with
  | literal v => rfl
  | var name => rfl
  | leaves path => rfl
  | tuple ts => rw [fold, known_tuple, known_tuple, map_known_foldAll value ts h]
  | compare op a b =>
      rw [fold_compare, known_foldComparison, known_compare, h a (by simp [parts]),
        h b (by simp [parts])]
  | and ts => exact absurd rfl (hne .conjunction ts)
  | or ts => exact absurd rfl (hne .disjunction ts)
  | not t => rw [fold, known_foldNot, known_not, h t List.mem_cons_self]
  | present t =>
      rw [fold, known_test value tests_present (known_present value _), known_present,
        h t List.mem_cons_self]
  | missing t =>
      rw [fold, known_test value tests_missing (known_missing value _), known_missing,
        h t List.mem_cons_self]
  | startsWith t start =>
      rw [fold, known_test value (tests_startsWith start) (known_startsWith value _ start),
        known_startsWith, h t List.mem_cons_self]
  | oneOf t values =>
      by_cases hvalues : values = []
      · rw [fold, known_oneOf, hvalues]
        rfl
      · rw [fold, known_test value (tests_oneOf hvalues) (known_oneOf value _ values),
          known_oneOf, h t List.mem_cons_self]
  | arith op ts => rw [fold, known_foldArith, known_arith, map_known_foldAll value ts h]
  | coalesce ts => rw [fold, known_foldCoalesce, known_coalesce, map_known_foldAll value ts h]

/-- **One step**: an expression whose operands come to the same after folding does so too, unless it
is a connective that keeps one term alone that comes to null. -/
theorem known_fold_step {e : Expr} (h : ∀ t ∈ e.parts, known value t.fold = known value t) :
    known value e.fold = known value e ↔ ∀ (c : Connective) (ts : List Expr), e = c.of ts →
      ∀ t, c.Alone (foldAll ts) t → known value t ≠ .null := by
  by_cases hof : ∃ c ts, e = Connective.of c ts
  · obtain ⟨c, ts, rfl⟩ := hof
    have hparts : (c.of ts).parts = ts := by cases c <;> rfl
    rw [hparts] at h
    rw [known_fold_of_iff value c h]
    constructor
    · intro hnull c' ts' heq
      obtain ⟨rfl, rfl⟩ := Connective.of_inj heq
      exact hnull
    · intro hnull
      exact hnull c ts rfl
  · refine iff_of_true ?_ fun c ts heq => absurd ⟨c, ts, heq⟩ hof
    exact known_fold_of_ne value (fun c ts heq => hof ⟨c, ts, heq⟩) h

variable {value}

/-- Folding a steady expression early changes nothing. -/
theorem Steady.known_fold {e : Expr} (h : Steady value e) :
    known value e.fold = known value e := by
  induction h with
  | intro _ alone ih => exact (known_fold_step value ih).mpr alone

/-- **Folding before values are known** changes nothing in a steady expression: what it comes to is
the same as when the values are put in first. An expression that is not steady, though its operands
are, does not come to the same. -/
theorem fold_bind_fold (value : String → Json) (e : Expr) :
    (Steady value e → (e.fold.bind value).fold = (e.bind value).fold)
      ∧ ((∀ t ∈ e.parts, Steady value t) → ¬ Steady value e →
        (e.fold.bind value).fold ≠ (e.bind value).fold) := by
  refine ⟨Steady.known_fold, fun hparts hsteady hsame => hsteady (.intro hparts ?_)⟩
  exact (known_fold_step value fun t ht => (hparts t ht).known_fold).mp hsame

/-- Whether a field is missing for which a negated conjunction may stand in, of which one test of
another field is kept. -/
def steadyExpr : Expr :=
  .missing (.coalesce [.var "a", .not (.and [.literal (.bool true), .present (.var "b")])])

def oneValue : String → Json := fun name => if name = "a" then .nat 5 else .null

theorem steady_steadyExpr : Steady oneValue steadyExpr := by
  have other {e : Expr} (hne : ∀ c ts, e ≠ Connective.of c ts)
      (h : ∀ t ∈ e.parts, Steady oneValue t) : Steady oneValue e :=
    .intro h fun c ts heq => absurd heq (hne c ts)
  have hvar (name : String) : Steady oneValue (.var name) :=
    other (by rintro (_ | _) ts ⟨⟩) (by simp [parts])
  have htrue : Steady oneValue (.literal (.bool true)) :=
    other (by rintro (_ | _) ts ⟨⟩) (by simp [parts])
  have hpresent : Steady oneValue (.present (.var "b")) :=
    other (by rintro (_ | _) ts ⟨⟩) (List.forall_mem_singleton.mpr (hvar "b"))
  have hand : Steady oneValue (.and [.literal (.bool true), .present (.var "b")]) := by
    refine .intro (by simpa [parts] using ⟨htrue, hpresent⟩) ?_
    rintro (_ | _) ts ⟨⟩ t ⟨-, ⟨⟩⟩ hnull
    cases hnull
  have hnot : Steady oneValue (.not (.and [.literal (.bool true), .present (.var "b")])) :=
    other (by rintro (_ | _) ts ⟨⟩) (List.forall_mem_singleton.mpr hand)
  have hcoalesce := other (e := .coalesce [.var "a", .not (.and [.literal (.bool true),
    .present (.var "b")])]) (by rintro (_ | _) ts ⟨⟩) (by simpa [parts] using ⟨hvar "a", hnot⟩)
  exact other (by rintro (_ | _) ts ⟨⟩) (List.forall_mem_singleton.mpr hcoalesce)

theorem fold_bind_fold_steadyExpr : Steady oneValue steadyExpr
    ∧ steadyExpr.fold = .missing (.coalesce [.var "a", .not (.present (.var "b"))])
    ∧ (steadyExpr.fold.bind oneValue).fold = (steadyExpr.bind oneValue).fold :=
  ⟨steady_steadyExpr, rfl, (fold_bind_fold oneValue steadyExpr).1 steady_steadyExpr⟩

/-- **Null is not no outside of a connective**: a conjunction of one field is folded to the field,
which is missing when it has no value, and the conjunction is not. -/
theorem fold_bind_fold_ne_of_null : ¬ ∀ (value : String → Json) (e : Expr),
    (e.fold.bind value).fold = (e.bind value).fold := by
  intro h
  have hsame : truth = falsity := h (fun _ => .null) (.missing (.and [.var "x"]))
  cases hsame

end Tabula.Expr
