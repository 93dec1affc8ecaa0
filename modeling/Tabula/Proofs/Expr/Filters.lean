import Tabula.Proofs.Expr.Folding
import Tabula.Proofs.Results
import Tabula.Proofs.Schema.Documents

/-!
# Filters keep the meaning of conditions

A condition of comparisons and tests of single fields has a filter made of clauses on the columns
of these fields (`Expr.Clausal`). Over a flat catalog a document satisfies the filter exactly when
the condition folds to true with the document's values in place of the fields (`meets_filter`). Each
test is settled by the one column that holds the field's value (`any_stored`).
-/

set_option autoImplicit false

namespace Tabula.Expr

/-! ## Conditions -/

/-- Comparisons of a field with a literal that a filter can make. That a field is not equal is asked
of a column that could hold the literal, and a field above others equals no object. -/
structure Comparable (catalog : Catalog) (op : CompareOp) (name : String) (v : Json) : Prop where
  ne : op = .ne → v.isNull = true ∨ typedColumns catalog name v ≠ []
  eq : op = .eq → v.isObj = true → ¬ catalog.Above name

/-- Conditions on fields that have clauses of their own. -/
inductive Clausal (catalog : Catalog) : Expr → Prop
  | compare {op : CompareOp} {name : String} {v : Json} (h : Comparable catalog op name v) :
      Clausal catalog (.compare op (.var name) (.literal v))
  | compareTo {op : CompareOp} {name : String} {v : Json} (h : Comparable catalog op name v) :
      Clausal catalog (.compare op (.literal v) (.var name))
  | present (name : String) : Clausal catalog (.present (.var name))
  | missing (name : String) : Clausal catalog (.missing (.var name))
  | startsWith (name start : String) : Clausal catalog (.startsWith (.var name) start)
  | oneOf {name : String} {values : List Json} (hnull : ∀ v ∈ values, v.isNull = false)
      (hobj : catalog.Above name → ∀ v ∈ values, v.isObj = false) :
      Clausal catalog (.oneOf (.var name) values)
  | and {ts : List Expr} (h : ∀ t ∈ ts, Clausal catalog t) : Clausal catalog (.and ts)
  | or {ts : List Expr} (h : ∀ t ∈ ts, Clausal catalog t) : Clausal catalog (.or ts)

/-- An object is not compared for sameness with a field above others. -/
theorem Comparable.notObj {catalog : Catalog} {op : CompareOp} {name : String} {v : Json}
    (h : Comparable catalog op name v) (hop : op = .eq ∨ op = .ne) (habove : catalog.Above name) :
    v.isObj = false := by
  by_contra hobj
  rcases hop with hop | hop
  · exact h.eq hop (eq_true_of_ne_false hobj) habove
  · rcases h.ne hop with hnull | hcolumns
    · cases v <;> simp_all [Json.isNull, Json.isObj]
    · exact hcolumns (by rw [typedColumns, habove.1, List.filter_nil])

theorem Comparable.flip {catalog : Catalog} {op : CompareOp} {name : String} {v : Json}
    (h : Comparable catalog op name v) : Comparable catalog op.flip name v where
  ne hop := h.ne (by cases op <;> first | rfl | cases hop)
  eq hop := h.eq (by cases op <;> first | rfl | cases hop)

/-- A column of a field is one of those that could hold a value when it could hold another one of
the same type. -/
theorem mem_typedColumns {catalog : Catalog} {name : String} {v w : Json}
    (hsame : literalType? w = literalType? v) {c : Column} (hmem : c ∈ catalog.scalars name)
    (htype : literalType? w = some c.type) : c ∈ typedColumns catalog name v := by
  refine List.mem_filter.mpr ⟨hmem, ?_⟩
  rw [← hsame, htype]
  simp

/-! ## Tests of a field -/

section Fields

variable {catalog : Catalog} (hc : catalog.Flat) {doc : Document} {name : String} {value : Json}
  (hr : doc.Reads catalog name value)
include hc hr

/-- **A test of a field is settled by its columns**, when they include any that could hold a value
that passes. -/
theorem any_stored {columns : List Column} {test : Json → Bool}
    (hsub : ∀ c ∈ columns, c ∈ catalog.scalars name)
    (hall : ∀ c ∈ catalog.scalars name, ∀ v, literalType? v = some c.type → test v = true →
      c ∈ columns)
    (hnull : test .null = false)
    (habove : catalog.Above name → ∀ fields, test (.obj fields) = false) :
    (columns.any fun c => (doc c.stored).any test) = test value := by
  -- the field is a scalar in one column, is absent, or stands above others
  cases hr with
  | @scalar c _ hmem hv htype honly =>
      rw [Bool.eq_iff_iff, List.any_eq_true]
      constructor
      · rintro ⟨c', hc', htest⟩
        by_cases heq : c' = c
        · rw [heq, hv] at htest
          exact htest
        · rw [honly c' (hsub c' hc') heq] at htest
          cases htest
      · intro htest
        refine ⟨c, hall c hmem value htype htest, ?_⟩
        rw [hv]
        exact htest
  | absent hnone =>
      rw [hnull, List.any_eq_false]
      intro c hmem
      rw [hnone c (hc.mem_leaves_of_mem_scalars (hsub c hmem))]
      simp
  | above hname _ fields =>
      have hnil : columns = [] := by
        refine List.eq_nil_iff_forall_not_mem.mpr fun c hmem => ?_
        have hscalar := hsub c hmem
        rw [hname.1] at hscalar
        cases hscalar
      rw [hnil, habove hname fields]
      rfl

theorem meets_presentFilter : (presentFilter catalog name).meets doc.test = !value.isNull := by
  have hmeets : (presentFilter catalog name).meets doc.test
      = (catalog.leaves name).any fun c => (doc c.stored).isSome := by
    rw [presentFilter, Filter.meets_anyOf, List.any_map]
    rfl
  rw [hmeets]
  cases hr with
  | @scalar c _ hmem hv htype _ =>
      have hnull : value.isNull = false := by
        cases value with
        | null => cases htype
        | _ => rfl
      rw [hnull, Bool.not_false, List.any_eq_true]
      exact ⟨c, hc.mem_leaves_of_mem_scalars hmem, by rw [hv]; rfl⟩
  | absent hnone =>
      rw [List.any_eq_false.mpr fun c hmem => by rw [hnone c hmem]; simp]
      rfl
  | above _ hsome fields =>
      obtain ⟨c, hmem, hsome⟩ := hsome
      rw [List.any_eq_true.mpr ⟨c, hmem, hsome⟩]
      rfl

theorem meets_startsWithFilter (start : String) :
    (startsWithFilter catalog name start).meets doc.test = value.startsWith start := by
  have hmeets : (startsWithFilter catalog name start).meets doc.test
      = ((catalog.scalars name).filter (·.type == .string)).any fun c =>
          (doc c.stored).any (Json.startsWith start) := by
    rw [startsWithFilter, Filter.meets_anyOf, List.any_map]
    rfl
  rw [hmeets]
  refine any_stored hc hr (fun c hmem => (List.mem_filter.mp hmem).1) ?_ rfl fun _ _ => rfl
  intro c hmem v htype hstart
  cases v with
  | str s =>
      refine List.mem_filter.mpr ⟨hmem, ?_⟩
      rw [← Option.some.inj htype]
      rfl
  | _ => cases hstart

/-- Some column of a field holds one of some values when the field's value is one. -/
theorem any_contained {values : List Json} (hnull : ∀ v ∈ values, v.isNull = false)
    (hobj : catalog.Above name → ∀ v ∈ values, v.isObj = false) :
    ((catalog.scalars name).any fun c => (doc c.stored).any (·.containedIn values))
      = value.containedIn values := by
  refine any_stored hc hr (fun c hmem => hmem) (fun c hmem _ _ _ => hmem) ?_ ?_
  · exact List.any_eq_false.mpr fun v hmem => by
      rw [(same_order?_of_isNull (Bool.or_true _)).1, hnull v hmem]
      simp
  · exact fun habove fields => List.any_eq_false.mpr fun v hmem => by
      rw [(same_obj (hobj habove v hmem) fields).1]
      simp

theorem meets_oneOfFilter {values : List Json} (hnull : ∀ v ∈ values, v.isNull = false)
    (hobj : catalog.Above name → ∀ v ∈ values, v.isObj = false) :
    (oneOfFilter catalog name values).meets doc.test = value.containedIn values := by
  have hmeets : (oneOfFilter catalog name values).meets doc.test = (catalog.scalars name).any
      fun c => (doc c.stored).any
        (·.containedIn (values.filter fun v => literalType? v == some c.type)) := by
    rw [oneOfFilter, Filter.meets_anyOf, List.any_filterMap]
    refine congrArg (List.any _) (funext fun c => ?_)
    cases values.filter fun v => literalType? v == some c.type with
    | nil => cases doc c.stored <;> rfl
    | cons v vs => rfl
  -- each column is asked for the values of its type, and it holds none of another type
  have hcolumn : ∀ c ∈ catalog.scalars name, ((doc c.stored).any
        (·.containedIn (values.filter fun v => literalType? v == some c.type)))
      = (doc c.stored).any (·.containedIn values) := by
    intro c hmem
    cases hv : doc c.stored with
    | none => rfl
    | some v => exact containedIn_filter_type (hr.type_of_stored hc hmem hv) values
  rw [hmeets, ← any_contained hc hr hnull hobj, Bool.eq_iff_iff, List.any_eq_true,
    List.any_eq_true]
  exact exists_congr fun c => and_congr_right fun hmem => by rw [hcolumn c hmem]

/-! ## Comparisons -/

/-- Some column of a field holds a value when the field's value is it. -/
theorem any_same {v : Json} (hnull : v.isNull = false)
    (hobj : catalog.Above name → v.isObj = false) :
    ((typedColumns catalog name v).any fun c => (doc c.stored).any (·.same v)) = value.same v := by
  refine any_stored hc hr (fun c hmem => (List.mem_filter.mp hmem).1) ?_ ?_ ?_
  · exact fun c hmem w htype hsame => mem_typedColumns (literalType?_of_same hsame) hmem htype
  · rw [(same_order?_of_isNull rfl).1, hnull, Bool.and_false]
  · exact fun habove fields => (same_obj (hobj habove) fields).2

/-- One column at most holds a value, of all those that could. -/
theorem eq_of_same {v : Json} {c c' : Column} (hmem : c ∈ typedColumns catalog name v)
    (hmem' : c' ∈ typedColumns catalog name v) (hsame : (doc c.stored).any (·.same v) = true) :
    c' = c := by
  obtain ⟨hscalar, htyped⟩ := List.mem_filter.mp hmem
  obtain ⟨hscalar', htyped'⟩ := List.mem_filter.mp hmem'
  obtain ⟨s, hs, hsame⟩ := (Option.any_eq_true _ _).mp hsame
  have htype : literalType? v = some c.type := by
    rw [← literalType?_of_same hsame, hr.type_of_stored hc hscalar hs]
  have hpresence : c'.type ≠ .presence :=
    hc.noPresence c' ((Catalog.mem_scalars_iff hc.root).mp hscalar').1
  refine hc.eq_of_type hscalar' hscalar ?_
  simpa [htype, hpresence] using htyped'

/-- Some column of a field that could hold a value does not when the field's value is another. -/
theorem any_not_same {v : Json} (hne : typedColumns catalog name v ≠ []) (hnull : v.isNull = false)
    (hobj : catalog.Above name → v.isObj = false) :
    ((typedColumns catalog name v).any fun c => !(doc c.stored).any (·.same v))
      = !value.same v := by
  rw [← any_same hc hr hnull hobj, Bool.eq_iff_iff, List.any_eq_true, Bool.not_eq_true',
    List.any_eq_false]
  constructor
  · rintro ⟨c, hmem, hnot⟩ c' hmem' hsame
    rw [eq_of_same hc hr hmem' hmem hsame, hsame] at hnot
    cases hnot
  · intro hnone
    obtain ⟨c, hmem⟩ := List.exists_mem_of_ne_nil _ hne
    exact ⟨c, hmem, by simpa using hnone c hmem⟩

/-- Some column of a field holds a value in an order when the field's value is in it. -/
theorem any_order (op : CompareOp) (v : Json) :
    ((typedColumns catalog name v).any fun c =>
        (doc c.stored).any fun s => (order? s v).any op.holds)
      = (order? value v).any op.holds := by
  refine any_stored hc hr (fun c hmem => (List.mem_filter.mp hmem).1) ?_ rfl fun _ _ => rfl
  intro c hmem w htype hholds
  obtain ⟨o, horder, -⟩ := (Option.any_eq_true _ _).mp hholds
  exact mem_typedColumns (literalType?_of_order? horder) hmem htype

/-- **The clauses of a comparison say what the comparison says.** -/
theorem meets_compareFilter {op : CompareOp} {v : Json} (h : Comparable catalog op name v) :
    (compareFilter catalog op name v).meets doc.test = (foldCompare op value v).isTrue := by
  unfold compareFilter
  rw [isTrue_foldCompare]
  cases hnull : v.isNull with
  | true =>
      obtain ⟨hsame, horder⟩ := same_order?_of_isNull (a := value) (b := v) (by simp [hnull])
      rw [if_pos rfl, hsame, horder, hnull, Bool.and_true]
      cases op with
      | eq => exact (Filter.meets_not _ _).trans (by rw [meets_presentFilter hc hr, Bool.not_not])
      | ne => exact meets_presentFilter hc hr
      | _ => exact Filter.meets_matchNone _
  | false =>
      rw [if_neg Bool.false_ne_true, Filter.meets_anyOf, List.any_map]
      cases op with
      | eq => exact any_same hc hr hnull (h.notObj (Or.inl rfl))
      | ne =>
          have hne := (h.ne rfl).resolve_left (by simp [hnull])
          refine Eq.trans ?_ (any_not_same hc hr hne hnull (h.notObj (Or.inr rfl)))
          exact congrArg (List.any _) (funext fun c => Filter.meets_not _ _)
      | _ => exact any_order hc hr _ v

omit hc in
theorem same_comm {v : Json} (hobj : catalog.Above name → v.isObj = false) :
    v.same value = value.same v := by
  cases hr with
  | scalar _ _ htype _ => exact same_swap (by simp [htype]) v
  | absent _ => cases v <;> rfl
  | above habove _ fields =>
      obtain ⟨hleft, hright⟩ := same_obj (hobj habove) fields
      rw [hleft, hright]

omit hc in
/-- A comparison with its sides exchanged says what the flipped one says. -/
theorem isTrue_foldCompare_flip {op : CompareOp} {v : Json} (h : Comparable catalog op name v) :
    (foldCompare op v value).isTrue = (foldCompare op.flip value v).isTrue := by
  have hrange (op : CompareOp) :
      (order? v value).any op.holds = (order? value v).any op.flip.holds := by
    rw [order?_swap value v, Option.any_map]
    exact congrArg (Option.any · _) (funext fun o => holds_swap op o)
  rw [isTrue_foldCompare, isTrue_foldCompare]
  cases op with
  | eq => exact same_comm hr (h.notObj (Or.inl rfl))
  | ne => exact congrArg Bool.not (same_comm hr (h.notObj (Or.inr rfl)))
  | _ => exact hrange _

end Fields

/-! ## Filters of conditions -/

variable {catalog : Catalog}

/-- A condition is decided when its fields are known. -/
theorem Clausal.decided {e : Expr} (h : Clausal catalog e) (value : String → Json) :
    Decided (e.bind value).fold := by
  induction h with
  | compare _ => exact decided_foldCompare _ _ _
  | compareTo _ => exact decided_foldCompare _ _ _
  | present name => exact .bool _
  | missing name => exact .bool _
  | startsWith name start =>
      rw [bind, bind, fold, fold]
      cases value name <;> exact .bool _
  | @oneOf name values _ _ =>
      rw [bind, bind, fold, fold]
      cases values <;> exact .bool _
  | and _ ih =>
      rw [fold_bind_and ih]
      exact .bool _
  | or _ ih =>
      rw [fold_bind_or ih]
      exact .bool _

theorem exists_filters {ts : List Expr} {test : Filter → Bool} {holds : Expr → Bool}
    (h : ∀ t ∈ ts, ∃ f, t.filter catalog = .ok f ∧ f.meets test = holds t) :
    ∃ fs, filters catalog ts = .ok fs ∧ fs.all (Filter.meets test) = ts.all holds
      ∧ fs.any (Filter.meets test) = ts.any holds := by
  induction ts with
  | nil => exact ⟨[], rfl, rfl, rfl⟩
  | cons t ts ih =>
      obtain ⟨f, hf, hmeets⟩ := h t List.mem_cons_self
      obtain ⟨fs, hfs, hall, hany⟩ := ih fun t ht => h t (List.mem_cons_of_mem _ ht)
      refine ⟨f :: fs, ?_, ?_, ?_⟩
      · rw [filters, hf, hfs]
        rfl
      · rw [List.all_cons, List.all_cons, hmeets, hall]
      · rw [List.any_cons, List.any_cons, hmeets, hany]

/-- **Filters keep the meaning of conditions**: over a flat catalog a condition on single fields has
a filter, and a document that fits satisfies it exactly when the condition folds to true with the
document's values in place of the fields. -/
theorem meets_filter {e : Expr} {doc : Document} (hc : catalog.Flat) (hd : doc.Fits catalog)
    (members : String → Fields) (he : Clausal catalog e) :
    ∃ f, e.filter catalog = .ok f
      ∧ f.meets doc.test = (e.bind (doc.value catalog members)).fold.isTrue := by
  have hr (name : String) : doc.Reads catalog name (doc.value catalog members name) :=
    doc.reads_value hc hd members name
  -- on how the condition is made; only fields and literals are compared
  induction he with
  | compare h => exact ⟨_, rfl, meets_compareFilter hc (hr _) h⟩
  | compareTo h =>
      refine ⟨_, rfl, ?_⟩
      rw [meets_compareFilter hc (hr _) h.flip]
      exact (isTrue_foldCompare_flip (hr _) h).symm
  | present name =>
      refine ⟨_, rfl, ?_⟩
      rw [meets_presentFilter hc (hr name)]
      exact (isTrue_bool _).symm
  | missing name =>
      refine ⟨_, rfl, ?_⟩
      rw [Filter.meets_not, meets_presentFilter hc (hr name), Bool.not_not]
      exact (isTrue_bool _).symm
  | startsWith name start =>
      refine ⟨_, rfl, ?_⟩
      rw [meets_startsWithFilter hc (hr name), bind, bind, fold, fold]
      cases doc.value catalog members name <;> first | rfl | exact (isTrue_bool _).symm
  | @oneOf name values hnull hobj =>
      refine ⟨_, rfl, ?_⟩
      rw [meets_oneOfFilter hc (hr name) hnull hobj, bind, bind, fold, fold]
      cases values <;> first | rfl | exact (isTrue_bool _).symm
  | @and ts hts ih =>
      obtain ⟨fs, hfs, hall, -⟩ := exists_filters ih
      refine ⟨.all fs, by rw [filter, hfs]; rfl, ?_⟩
      rw [Filter.meets_all, hall, fold_bind_and fun t ht => (hts t ht).decided _, isTrue_bool]
  | @or ts hts ih =>
      obtain ⟨fs, hfs, -, hany⟩ := exists_filters ih
      refine ⟨.anyOf fs, by rw [filter, hfs]; rfl, ?_⟩
      rw [Filter.meets_anyOf, hany, fold_bind_or fun t ht => (hts t ht).decided _, isTrue_bool]

/-- A catalog with a field of two types and one below another name. -/
def fieldsCatalog : Catalog := .overRoot "t"
  [{ name := "a", stored := "a.~n~", mapping := "double", type := .number, nestedPath := ["."] },
   { name := "a", stored := "a.~s~", mapping := "keyword", type := .string, nestedPath := ["."] },
   { name := "o.x", stored := "o.x", mapping := "boolean", type := .boolean, nestedPath := ["."] }]

/-- A document with a text at the first field, and a value below the other name. -/
def fieldsDocument : Document
  | "a.~s~" => some (.str "abc")
  | "o.x" => some (.bool true)
  | _ => none

theorem flat_fieldsCatalog : fieldsCatalog.Flat where
  root := rfl
  unique := by decide
  noPresence := by decide
  apart := by decide

theorem fits_fieldsDocument : fieldsDocument.Fits fieldsCatalog where
  typed := by
    simp [fieldsCatalog, Catalog.overRoot, fieldsDocument, literalType?]
  single := by
    simp [fieldsCatalog, Catalog.overRoot, fieldsDocument]

def fieldsCondition : Expr :=
  .and [.compare .eq (.var "a") (.literal (.str "abc")),
    .compare .ne (.var "a") (.literal (.str "b")),
    .or [.compare .lt (.literal (.nat 5)) (.var "a"), .missing (.var "b")],
    .present (.var "o"),
    .startsWith (.var "a") "ab",
    .oneOf (.var "a") [.nat 3, .str "abc"]]

theorem clausal_fieldsCondition : Clausal fieldsCatalog fieldsCondition := by
  have comparable (op : CompareOp) (v : Json) (hop : op ≠ .ne) (hv : v.isObj = false) :
      Comparable fieldsCatalog op "a" v :=
    ⟨fun h => absurd h hop, fun _ hobj => absurd hobj (by simp [hv])⟩
  refine .and ?_
  simp only [List.forall_mem_cons]
  have hne : Comparable fieldsCatalog .ne "a" (.str "b") :=
    ⟨fun _ => Or.inr (by decide), fun h => absurd h (by decide)⟩
  refine ⟨.compare (comparable _ _ (by decide) rfl), .compare hne, .or ?_, .present _,
    .startsWith _ _, .oneOf ?_ ?_, by simp⟩
  · simp only [List.forall_mem_cons]
    exact ⟨.compareTo (comparable _ _ (by decide) rfl), .missing _, by simp⟩
  · simp [Json.nat, Json.isNull]
  · simp [Json.nat, Json.isObj]

theorem meets_filter_fields : fieldsCatalog.Flat ∧ fieldsDocument.Fits fieldsCatalog
    ∧ Clausal fieldsCatalog fieldsCondition
    ∧ ∃ f, fieldsCondition.filter fieldsCatalog = .ok f ∧ f.meets fieldsDocument.test
        = (fieldsCondition.bind (fieldsDocument.value fieldsCatalog fun _ => [])).fold.isTrue :=
  ⟨flat_fieldsCatalog, fits_fieldsDocument, clausal_fieldsCondition,
    meets_filter flat_fieldsCatalog fits_fieldsDocument _ clausal_fieldsCondition⟩

/-- A condition on a name that only stands above a field: that it has no value, or that its value
is one of the objects that it could be. -/
def aboveCondition : Expr :=
  .or [.missing (.var "o"),
    .oneOf (.var "o") [.obj [("x", .bool true)], .obj [("x", .bool false)]]]

/-- Whether the name above stands for nothing or for the object of what lies below it, the condition
holds, and the document does not satisfy its filter. -/
theorem not_meets_filter_above : fieldsCatalog.Flat ∧ fieldsDocument.Fits fieldsCatalog
    ∧ (∃ f, aboveCondition.filter fieldsCatalog = .ok f ∧ f.meets fieldsDocument.test = false)
    ∧ (aboveCondition.bind fun _ => .null).fold.isTrue = true
    ∧ (aboveCondition.bind fun _ => .obj [("x", .bool true)]).fold.isTrue = true := by
  refine ⟨flat_fieldsCatalog, fits_fieldsDocument, ⟨_, rfl, ?_⟩, ?_, ?_⟩
  · decide
  · decide
  · decide

end Tabula.Expr
