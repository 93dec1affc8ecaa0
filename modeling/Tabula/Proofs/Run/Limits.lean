import Mathlib
import Tabula.Proofs.Grouping.Limits
import Tabula.Proofs.Hits.Fetching
import Tabula.Run.Compiled

/-!
# The limits of a request

No request asks the backend for more than the options grant (`Compiled.sizes_within`). With a
greatest limit that holds of every size: of the values that edges and unions gather, of the
partitions of ranges, and of the hits and the nested documents that a projection fetches. Without
one, it still holds of what becomes a list of buckets whatever the query says, the partitions and
the values of unions.
-/

set_option autoImplicit false

namespace Tabula

/-! ## Projections -/

/-- Whether a request fetches no more hits than so many, nor more of the nested documents that are
its rows. -/
structure HitsPlan.SizesWithin (n : Nat) (p : HitsPlan) : Prop where
  size : ∃ k ≤ n, p.request.getD "size" = .nat k
  /-- The condition of the request; the clauses below are those of it that ask for documents. -/
  query : p.request.getD "query" = p.fullFilter.toJson
  rows : ∀ clause ∈ p.fullFilter.required, ∃ path filter hits k,
    clause = .nested path filter (some hits) ∧ hits.size = some k ∧ k ≤ n

namespace Hits

variable {catalog : Catalog} {options : Options} {q : Query} {p : HitsPlan}

theorem limit_of_compile (h : compile catalog options q = .ok p) :
    p.limit = options.limit q.limit := by
  obtain ⟨selects, -, h⟩ := Results.bind_eq_ok.mp h
  obtain ⟨parts, -, h⟩ := Results.bind_eq_ok.mp h
  obtain ⟨conditions, -, h⟩ := Results.bind_eq_ok.mp h
  obtain ⟨sort, -, h⟩ := Results.bind_eq_ok.mp h
  cases h
  rfl

/-- **A projection fetches no more than the greatest limit that is granted.** -/
theorem sizes_within_limit (h : compile catalog options q = .ok p) {m : Nat}
    (hm : options.maxLimit = some m) : p.SizesWithin m := by
  have hlimit : p.limit ≤ m := by
    rw [limit_of_compile h]
    exact Options.limit_le hm q.limit
  have hplain : ∀ c ∈ p.conditions, c.2.Plain := by
    obtain ⟨-, -, -, -, hconditions⟩ := compile_eq_ok h
    intro c hc
    obtain ⟨e, he⟩ := hconditions c hc
    exact Expr.plain_filter e he
  refine ⟨⟨p.limit, hlimit, rfl⟩, p.request_query, ?_⟩
  intro clause hclause
  rw [HitsPlan.required_fullFilter hplain, Option.mem_toList, Option.map_eq_some_iff] at hclause
  obtain ⟨depth, -, rfl⟩ := hclause
  exact ⟨depth, _, _, p.limit, rfl, rfl, hlimit⟩

end Hits

/-! ## Compiled queries -/

namespace Compiled

/-- Whether nothing is asked for beyond a limit. -/
def Within (n : Nat) : Compiled → Prop
  | grouping p => p.TermsWithin n ∧ p.BucketsWithin n
  | hits p => p.SizesWithin n

/-- Whether there are no more buckets of one range or one union than so many. -/
def BucketsWithin (n : Nat) : Compiled → Prop
  | grouping p => p.BucketsWithin n
  | hits _ => True

/-- **The sizes of a request are within the limits of the options**: all of them within the greatest
limit when there is one, else the ranges and the unions within ten thousand. -/
theorem sizes_within {catalog : Catalog} {version : String} {options : Options} {q : Query}
    {c : Compiled} (h : Compiled.ofQuery catalog version options q = .ok c) :
    (∀ m, options.maxLimit = some m → c.Within m)
      ∧ (options.maxLimit = none → c.BucketsWithin 10000) := by
  obtain ⟨operation, -, h⟩ := Results.bind_eq_ok.mp h
  -- the version decides on a name in requests, not on their sizes
  have hversion : (options.forVersion version).maxLimit = options.maxLimit := rfl
  cases operation with
  | aggregation =>
      obtain ⟨plan, hplan, rfl⟩ := Results.map_eq_ok.mp h
      have hbuckets := Grouping.buckets_within hplan
      constructor
      · intro m hm
        have hm := hversion.trans hm
        rw [Options.bucketLimit_of_some hm] at hbuckets
        exact ⟨Grouping.terms_within hplan hm, hbuckets⟩
      · intro hnone
        rwa [Options.bucketLimit_of_none (hversion.trans hnone)] at hbuckets
  | projection =>
      obtain ⟨plan, hplan, rfl⟩ := Results.map_eq_ok.mp h
      exact ⟨fun m hm => Hits.sizes_within_limit hplan (hversion.trans hm), fun _ => trivial⟩

/-- Options that grant three at most, where queries that do not say get ten. -/
def threeAtMost : Options := { Options.default with maxLimit := some 3 }

def threeValues : GroupingPlan :=
  let edge := { Grouping.sampleDecoder with
    kind := .value
      { source := .column "a", missing := .missing "a", sort := none, limit := 3, policy := .drop,
        tally := .empty } }
  { Grouping.sampleGrouping with
    tree :=
      [("_match", .node (.terms (.column "a") (some 3) none none) Grouping.sampleInner),
        ("_missing", .node (.missing "a") Grouping.sampleInner)]
    decoders := [edge] }

def threeLines : HitsPlan := { Hits.linesPlan with limit := 3 }

theorem sizes_within_three :
    Compiled.ofQuery Grouping.sampleCatalog "7.10.2" threeAtMost Grouping.sampleQuery
        = .ok (.grouping threeValues)
      ∧ (Compiled.grouping threeValues).Within 3
      ∧ Compiled.ofQuery Hits.ordersCatalog "7.10.2" threeAtMost Hits.linesQuery
        = .ok (.hits threeLines)
      ∧ (Compiled.hits threeLines).Within 3 := by
  have hplan : Grouping.compile Grouping.sampleCatalog threeAtMost Grouping.sampleQuery
      = .ok threeValues := by
    cbv
  have hgrouping : Compiled.ofQuery Grouping.sampleCatalog "7.10.2" threeAtMost
      Grouping.sampleQuery = .ok (.grouping threeValues) :=
    congrArg (Compiled.grouping <$> ·) hplan
  have hhits : Compiled.ofQuery Hits.ordersCatalog "7.10.2" threeAtMost Hits.linesQuery
      = .ok (.hits threeLines) := by
    rfl
  exact ⟨hgrouping, (sizes_within hgrouping).1 3 rfl, hhits, (sizes_within hhits).1 3 rfl⟩

end Compiled

end Tabula
