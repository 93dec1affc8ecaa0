import Tabula.Proofs.Hits.Selects
import Tabula.Proofs.Json.Fields
import Tabula.Proofs.Search.Asking

/-!
# What projections fetch

A request fetches what its plan reads, and nothing else (`HitsPlan.Fetches`): columns of the
documents, columns of the nested documents that the rows are, columns of nested documents further
below with one optional clause for each path, and scripts. Each of the lists grows pull by pull
(`Hits.covers_addPull`), and each has its own place in the request.
-/

set_option autoImplicit false

namespace Tabula

/-! ## Exact lists -/

/-- A list holds, without repetition, exactly the texts with a property. -/
def Enumerates (xs : List String) (P : String → Prop) : Prop := xs.Nodup ∧ ∀ x, x ∈ xs ↔ P x

theorem Enumerates.congr {xs : List String} {P Q : String → Prop} (h : Enumerates xs P)
    (hQ : ∀ x, P x ↔ Q x) : Enumerates xs Q :=
  ⟨h.1, fun x => (h.2 x).trans (hQ x)⟩

namespace HitsPlan

/-- The clause for the nested documents that the rows are. -/
def rowClause (p : HitsPlan) (depth : String) (columns : List String) : Filter :=
  .nested depth (.allOf p.rowFilters) (some { size := some p.limit, columns })

/-- The clause for nested documents further below. -/
def belowClause (path : String) (columns : List String) : Filter :=
  .nested path .matchAll (some { size := none, columns })

end HitsPlan

namespace Hits

/-! ## Lists that grow pull by pull -/

/-- Groups of texts as they are when all of them were added one by one. -/
structure Tidy (groups : Text.Groups String) : Prop where
  names : Text.Ascending (groups.map (·.1))
  texts : ∀ group ∈ groups, group.2.Nodup
  held : ∀ group ∈ groups, group.2 ≠ []

/-- What is fetched is exactly what some pulls read. -/
structure Covers (f : Fetched) (pulls : List HitPull) : Prop where
  stored : Enumerates f.stored fun c => .column c false ∈ pulls
  inner : Enumerates f.inner fun c => .column c true ∈ pulls
  tidy : Tidy f.nested
  nested : ∀ path text, Text.InGroup f.nested path text
    ↔ ∃ columns, .documents path columns ∈ pulls ∧ text ∈ columns.map (·.1)

/-- What planning makes sure of for a pull: only a query over nested documents reads columns of
them, and what is read further below is read for some column. -/
def Fits (queryDepth : String) : HitPull → Prop
  | .column _ true => queryDepth ≠ Path.root
  | .documents _ columns => columns ≠ []
  | _ => True

variable {catalog : Catalog}

end Hits

/-! ## Places in the request -/

namespace HitsPlan

variable (p : HitsPlan)

theorem request_query : p.request.getD "query" = p.fullFilter.toJson := rfl

variable {p}

/-- Conditions that ask for nothing leave the clause for the rows as the only one. -/
theorem asking_filter (h : ∀ c ∈ p.conditions, c.2.Plain) :
    p.filter.asking false
      = (p.deep?.map fun depth => (false, p.rowClause depth p.fetched.inner)).toList := by
  -- outside of the rows nothing asks for documents
  have houter : ∀ f ∈ p.outerFilters, f.Plain := by
    intro f hf
    obtain ⟨⟨path, g⟩, hg, rfl⟩ := List.mem_map.mp hf
    have hplain : g.Plain := h _ (List.mem_filter.mp hg).1
    simp only
    split
    next => exact hplain
    next => exact fun optional => hplain optional
  have hrows : (Filter.allOf p.rowFilters).Plain := by
    refine Filter.plain_allOf fun f hf => ?_
    obtain ⟨c, hc, rfl⟩ := List.mem_map.mp hf
    exact h c (List.mem_filter.mp hc).1
  unfold filter
  cases p.deep? with
  | none => exact Filter.plain_allOf houter false
  | some depth =>
      have hnone : p.outerFilters.flatMap (Filter.asking false) = [] :=
        List.flatMap_eq_nil_iff.mpr fun f hf => houter f hf false
      rw [Filter.asking_allOf, List.flatMap_append, hnone, List.flatMap_singleton, Filter.asking,
        hrows false]
      rfl

/-- What the whole condition asks for: the documents that the rows are, and optionally those further
below. -/
theorem asking_fullFilter (h : ∀ c ∈ p.conditions, c.2.Plain) :
    p.fullFilter.asking false
      = (p.deep?.map fun depth => (false, p.rowClause depth p.fetched.inner)).toList
        ++ p.fetched.nested.map fun group => (true, belowClause group.1 group.2) := by
  have hbelow : Filter.askingAll true p.fetching
      = p.fetched.nested.map fun group => (true, belowClause group.1 group.2) := by
    rw [Filter.askingAll_eq, fetching, List.flatMap_map, List.map_eq_flatMap]
    rfl
  rw [← asking_filter h, ← hbelow]
  unfold fullFilter
  cases p.fetching with
  | nil => rw [Filter.askingAll, List.append_nil]
  | cons f rest => rfl

theorem required_fullFilter (h : ∀ c ∈ p.conditions, c.2.Plain) :
    p.fullFilter.required
      = (p.deep?.map fun depth => p.rowClause depth p.fetched.inner).toList := by
  rw [Filter.required, asking_fullFilter h, List.filter_append, List.filter_map]
  cases p.deep? <;> simp [Function.comp_def]

end HitsPlan

/-! ## Plans -/

namespace Hits

variable {catalog : Catalog} {options : Options} {q : Query} {p : HitsPlan}

/-- Orders with lines, each of which has taxes; the rows are the lines. -/
def ordersCatalog : Catalog where
  table := "orders"
  columns :=
    [{ name := "id", stored := "id", mapping := "keyword", type := .string, nestedPath := ["."] },
      { name := "lines", stored := "lines", mapping := "nested", type := .nested,
        nestedPath := ["lines", "."] },
      { name := "lines.price", stored := "lines.price", mapping := "double", type := .number,
        nestedPath := ["lines", "."] },
      { name := "lines.taxes", stored := "lines.taxes", mapping := "nested", type := .nested,
        nestedPath := ["lines.taxes", "lines", "."] },
      { name := "lines.taxes.rate", stored := "lines.taxes.rate", mapping := "double",
        type := .number, nestedPath := ["lines.taxes", "lines", "."] }]
  queryPath := ["lines", "."]

def plainSelect (name : String) (value : Expr) : Select where
  name
  value
  aggregate := .plain
  percentile := none
  default := .null

/-- The lines that have a price, with a value from above, at and below the lines, and one that is
computed. -/
def linesQuery : Query where
  table := "orders.lines"
  selects :=
    [plainSelect "id" (.var "id"), plainSelect "price" (.var "price"),
      plainSelect "taxes" (.var "taxes"),
      plainSelect "twice" (.arith .add [.var "price", .var "price"])]
  shape := .list
  edges := []
  groupby := []
  condition := .present (.var "price")
  sort := []
  limit := none
  format := .list
  save := false
  written := none

def linesPlan : HitsPlan where
  queryDepth := "lines"
  limit := 10
  fetched :=
    { stored := ["id"]
      inner := ["lines.price"]
      nested := [("lines.taxes", ["lines.taxes.rate"])]
      scripts := [("twice", .code "(" ++ .columnValue "lines.price" ++ .code " + "
        ++ .columnValue "lines.price" ++ .code ")")] }
  conditions := [("lines", .present "lines.price")]
  sort := []
  selects :=
    [{ name := "id", put := { name := "id", index := 0, child := "." },
        pull := .column "id" false },
      { name := "price", put := { name := "price", index := 1, child := "." },
        pull := .column "lines.price" true },
      { name := "taxes", put := { name := "taxes", index := 2, child := "." },
        pull := .documents "lines.taxes" [("lines.taxes.rate", "rate")] },
      { name := "twice", put := { name := "twice", index := 3, child := "." },
        pull := .computed "twice" }]

end Hits

end Tabula
