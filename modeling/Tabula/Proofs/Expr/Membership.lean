import Tabula.Proofs.Expr.Complements
import Tabula.Proofs.Expr.Conditions

/-!
# One of several values

That a field is one of several values can be asked in one step, or value by value, as a disjunction
of equalities. In one step each column is asked for the values of its own type. Equality asks for
more: with null, whether the field is absent, and with any other value also the columns that only
say that the field is there (`Asked`). So the disjunction is satisfied by every document that the
one step finds, and the two are the same filter exactly when no value is null and each column that
equality asks in addition is one that is asked already (`disjunction_iff`).
-/

set_option autoImplicit false

namespace Tabula

/-- What a document answers about its columns: whether a column holds a value, and whether it holds
any at all. -/
structure Answers where
  holds : String → Json → Bool
  present : String → Bool

/-- Whether a document satisfies a clause. One of several values is held when some of them is. -/
def Answers.test (answers : Answers) : Filter → Bool
  | .term column v => answers.holds column v
  | .terms column vs => vs.any (answers.holds column)
  | .present column => answers.present column
  | _ => false

namespace Expr

variable {catalog : Catalog} {name : String} {values : List Json}

/-! ## The disjunction of equalities -/

/-- A field equals one value or the other. -/
def equalsSome (name : String) (values : List Json) : Expr :=
  .or (values.map fun v => .compare .eq (.var name) (.literal v))

theorem filter_equalsSome (catalog : Catalog) (name : String) (values : List Json) :
    filter catalog (equalsSome name values)
      = .ok (.anyOf (values.map (compareFilter catalog .eq name))) := by
  have hfilters : filters catalog (values.map fun v => .compare .eq (.var name) (.literal v))
      = .ok (values.map (compareFilter catalog .eq name)) := by
    induction values with
    | nil => rfl
    | cons v values ih =>
        rw [List.map_cons, filters, ih]
        rfl
  rw [equalsSome, filter, hfilters]
  rfl

theorem meets_equalsSome (test : Filter → Bool) :
    (Filter.anyOf (values.map (compareFilter catalog .eq name))).meets test = true
      ↔ ∃ v ∈ values, (compareFilter catalog .eq name v).meets test = true := by
  rw [Filter.meets_anyOf, List.any_map, List.any_eq_true]
  rfl

/-! ## What is asked of which columns -/

section Columns

variable (answers : Answers)

/-- In one step, a column is asked for the values of its type. -/
theorem meets_oneOf : (oneOfFilter catalog name values).meets answers.test = true
    ↔ ∃ v ∈ values, ∃ c ∈ catalog.scalars name,
      literalType? v = some c.type ∧ answers.holds c.stored v = true := by
  have hmeets : (oneOfFilter catalog name values).meets answers.test
      = (catalog.scalars name).any fun c =>
          (values.filter fun v => literalType? v == some c.type).any (answers.holds c.stored) := by
    rw [oneOfFilter, Filter.meets_anyOf, List.any_filterMap]
    refine congrArg (List.any _) (funext fun c => ?_)
    cases values.filter fun v => literalType? v == some c.type with
    | nil => rfl
    | cons v vs => rfl
  rw [hmeets]
  simp only [List.any_eq_true, List.mem_filter, beq_iff_eq]
  constructor
  · rintro ⟨c, hc, v, ⟨hv, htype⟩, hholds⟩
    exact ⟨v, hv, c, hc, htype, hholds⟩
  · rintro ⟨v, hv, c, hc, htype, hholds⟩
    exact ⟨c, hc, v, ⟨hv, htype⟩, hholds⟩

/-- Equality with a scalar asks the columns of its type, and those that say that the field is
there. -/
theorem meets_equalScalar {v : Json} (hv : (literalType? v).isSome = true) :
    (compareFilter catalog .eq name v).meets answers.test = true
      ↔ ∃ c ∈ catalog.scalars name, (literalType? v = some c.type ∨ c.type = .presence)
        ∧ answers.holds c.stored v = true := by
  have hnull : v.isNull = false := by cases v <;> first | rfl | cases hv
  obtain ⟨type, htype⟩ := Option.isSome_iff_exists.mp hv
  rw [meets_equal hnull, List.any_eq_true]
  simp only [typedColumns, htype, List.mem_filter, Bool.or_eq_true, beq_iff_eq, and_assoc,
    Option.some.injEq, eq_comm (a := type)]
  rfl

/-- Equality with null asks that no column at or below the field holds a value. -/
theorem meets_equalNull {v : Json} (hv : v.isNull = true) :
    (compareFilter catalog .eq name v).meets answers.test = true
      ↔ ∀ c ∈ catalog.leaves name, answers.present c.stored = false := by
  rw [compareFilter, if_pos hv, Filter.meets_not, presentFilter, Filter.meets_anyOf, List.any_map,
    Bool.not_eq_true', List.any_eq_false]
  simp only [Bool.not_eq_true]
  rfl

end Columns

/-! ## What only equality asks -/

/-- Whether a document answers what equality with the values asks, and membership does not: that
the field is absent, for null, or that a column that says that it is there holds a scalar. -/
def Asked (catalog : Catalog) (name : String) (values : List Json) (answers : Answers) : Prop :=
  ((∃ v ∈ values, v.isNull = true)
    ∧ ∀ c ∈ catalog.leaves name, answers.present c.stored = false)
  ∨ ∃ c ∈ catalog.scalars name, c.type = .presence
    ∧ ∃ v ∈ values, v.isNull = false ∧ answers.holds c.stored v = true

/-- Whether equality with the values asks nothing but what membership does: no value is null, and
what is asked of a column that says that the field is there, is asked of it as of another one. -/
def Covers (catalog : Catalog) (name : String) (values : List Json) : Prop :=
  (∀ v ∈ values, v.isNull = false)
  ∧ ∀ c ∈ catalog.scalars name, c.type = .presence → ∀ v ∈ values,
    ∃ c' ∈ catalog.scalars name, literalType? v = some c'.type ∧ c'.stored = c.stored

instance (catalog : Catalog) (name : String) (values : List Json) :
    Decidable (Covers catalog name values) := inferInstanceAs (Decidable (_ ∧ _))

section Disjunction

variable (hvalues : ∀ v ∈ values, v.isNull = true ∨ (literalType? v).isSome = true)
include hvalues

/-- The disjunction finds what membership does, and what only equality asks for. -/
theorem meets_equalsSome_iff (answers : Answers) :
    (Filter.anyOf (values.map (compareFilter catalog .eq name))).meets answers.test = true
      ↔ (oneOfFilter catalog name values).meets answers.test = true
        ∨ Asked catalog name values answers := by
  have hscalar {v : Json} (hv : v ∈ values) (hnull : v.isNull = false) :
      (literalType? v).isSome = true := (hvalues v hv).resolve_left (by simp [hnull])
  rw [meets_equalsSome, meets_oneOf]
  constructor
  · -- equality also asks the columns that only say whether a value is there
    rintro ⟨v, hv, hmeets⟩
    cases hnull : v.isNull with
    | true => exact Or.inr (Or.inl ⟨⟨v, hv, hnull⟩, (meets_equalNull answers hnull).mp hmeets⟩)
    | false =>
        obtain ⟨c, hc, htype | htype, hholds⟩ :=
          (meets_equalScalar answers (hscalar hv hnull)).mp hmeets
        · exact Or.inl ⟨v, hv, c, hc, htype, hholds⟩
        · exact Or.inr (Or.inr ⟨c, hc, htype, v, hv, hnull, hholds⟩)
  · rintro (⟨v, hv, c, hc, htype, hholds⟩ | ⟨⟨v, hv, hnull⟩, habsent⟩ | ⟨c, hc, htype, v, hv, hnull,
      hholds⟩)
    · refine ⟨v, hv, (meets_equalScalar answers (by simp [htype])).mpr ?_⟩
      exact ⟨c, hc, Or.inl htype, hholds⟩
    · exact ⟨v, hv, (meets_equalNull answers hnull).mpr habsent⟩
    · refine ⟨v, hv, (meets_equalScalar answers (hscalar hv hnull)).mpr ?_⟩
      exact ⟨c, hc, Or.inr htype, hholds⟩

/-- **Membership is the disjunction of equalities** exactly when equality asks nothing more.
Whatever is asked, every document that is found by membership is found by the disjunction, and what
else the disjunction finds are the documents that answer what only equality asks. -/
theorem disjunction_iff (catalog : Catalog) (name : String) :
    ∃ among either : Filter,
      filter catalog (.oneOf (.var name) values) = .ok among
      ∧ filter catalog (equalsSome name values) = .ok either
      ∧ (∀ answers : Answers, either.meets answers.test = true
        ↔ among.meets answers.test = true ∨ Asked catalog name values answers)
      ∧ ((∀ answers : Answers, among.meets answers.test = either.meets answers.test)
        ↔ Covers catalog name values) := by
  refine ⟨oneOfFilter catalog name values, _, rfl, filter_equalsSome catalog name values,
    meets_equalsSome_iff hvalues, ?_⟩
  constructor
  · intro hall
    -- whatever a document answers that only equality asks for, membership finds it
    have hfound (answers : Answers) (hasked : Asked catalog name values answers) :
        (oneOfFilter catalog name values).meets answers.test = true := by
      rw [hall answers]
      exact (meets_equalsSome_iff hvalues answers).mpr (Or.inr hasked)
    have hnull : ∀ v ∈ values, v.isNull = false := by
      intro v hv
      by_contra htrue
      rw [Bool.not_eq_false] at htrue
      have hasked : Asked catalog name values ⟨fun _ _ => false, fun _ => false⟩ :=
        Or.inl ⟨⟨v, hv, htrue⟩, fun _ _ => rfl⟩
      obtain ⟨_, _, _, _, _, hholds⟩ := (meets_oneOf _).mp (hfound _ hasked)
      cases hholds
    refine ⟨hnull, fun c hc htype v hv => ?_⟩
    classical
    let answers : Answers := ⟨fun column w => decide (column = c.stored ∧ w = v), fun _ => false⟩
    have hholds : answers.holds c.stored v = true := decide_eq_true ⟨rfl, rfl⟩
    have hasked : Asked catalog name values answers :=
      Or.inr ⟨c, hc, htype, v, hv, hnull v hv, hholds⟩
    obtain ⟨w, -, c', hc', htype', hheld⟩ := (meets_oneOf answers).mp (hfound answers hasked)
    obtain ⟨hstored, rfl⟩ := of_decide_eq_true hheld
    exact ⟨c', hc', htype', hstored⟩
  · rintro ⟨hnull, hcovers⟩ answers
    rw [Bool.eq_iff_iff, meets_equalsSome_iff hvalues answers]
    refine ⟨Or.inl, ?_⟩
    rintro (hamong | ⟨⟨v, hv, htrue⟩, -⟩ | ⟨c, hc, htype, v, hv, -, hholds⟩)
    · exact hamong
    · rw [hnull v hv] at htrue
      cases htrue
    · obtain ⟨c', hc', htype', hstored⟩ := hcovers c hc htype v hv
      exact (meets_oneOf answers).mpr ⟨v, hv, c', hc', htype', by rw [hstored, hholds]⟩

end Disjunction

/-! ## Measures and names -/

def mixedCatalog : Catalog :=
  .overRoot "t" [measureColumn "m.~n~" .number, measureColumn "m.~s~" .string]

/-- Over columns of numbers and of texts, numbers and texts can be asked for in one step. -/
theorem disjunction_mixed : (∀ v ∈ [Json.nat 3, .str "x", .nat 4],
      v.isNull = true ∨ (literalType? v).isSome = true)
    ∧ ∃ among either : Filter,
      filter mixedCatalog (.oneOf (.var "m") [.nat 3, .str "x", .nat 4]) = .ok among
      ∧ filter mixedCatalog (equalsSome "m" [.nat 3, .str "x", .nat 4]) = .ok either
      ∧ ∀ answers : Answers, among.meets answers.test = either.meets answers.test := by
  have hvalues : ∀ v ∈ [Json.nat 3, .str "x", .nat 4],
      v.isNull = true ∨ (literalType? v).isSome = true := by decide
  obtain ⟨among, either, hamong, heither, -, hiff⟩ := disjunction_iff hvalues mixedCatalog "m"
  exact ⟨hvalues, among, either, hamong, heither, hiff.mpr (by decide)⟩

/-- **Membership is not the disjunction of equalities**: a document without the measure is found as
equal to null, and one that holds a number only where it is marked, as equal to the number. Neither
is found as one of the values. -/
theorem not_disjunction_marked :
    (∃ among either : Filter, filter measureCatalog (.oneOf (.var "m") [.nat 3, .null]) = .ok among
      ∧ filter measureCatalog (equalsSome "m" [.nat 3, .null]) = .ok either
      ∧ ∃ answers : Answers, among.meets answers.test = false ∧ either.meets answers.test = true)
    ∧ ∃ among either : Filter, filter markedCatalog (.oneOf (.var "m") [.nat 3]) = .ok among
      ∧ filter markedCatalog (equalsSome "m" [.nat 3]) = .ok either
      ∧ ∃ answers : Answers, among.meets answers.test = false ∧ either.meets answers.test = true :=
  ⟨⟨_, _, rfl, rfl, ⟨fun _ _ => false, fun _ => false⟩, by decide, by decide⟩,
    ⟨_, _, rfl, rfl, ⟨fun column _ => column == "m.~e~", fun _ => true⟩, by decide, by decide⟩⟩

end Expr

end Tabula
