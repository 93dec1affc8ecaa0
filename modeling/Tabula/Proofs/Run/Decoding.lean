import Mathlib
import Tabula.Proofs.Grouping.Rows
import Tabula.Proofs.Hits.Rows
import Tabula.Proofs.Result.Grouped
import Tabula.Run.Compiled

/-!
# Decoding any response

A compiled query turns every response into a result, however malformed the response is, but for
two cases: a projection of a response that holds no hits at all, and a result that needs a longer
list than there can be (`Compiled.Overruns`). That is a cube with too many cells, or a list of
nested documents one of which says that it lies too far out.
-/

set_option autoImplicit false

namespace Tabula

/-! ## Projections -/

namespace Hits

theorem length_placeAt (docs : List Json) (i : Nat) (v : Json) :
    (placeAt docs i v).length = max docs.length (i + 1) := by
  unfold placeAt
  split
  next hlt =>
      rw [List.length_set]
      omega
  next hlt =>
      simp only [List.length_append, List.length_replicate, List.length_singleton]
      omega

theorem length_documents {inner : List Json} {columns : List (String × String)}
    {docs : List Json} (h : documents inner columns = .arr docs) : docs.length = reach inner := by
  have hfold (inner placed : List Json) :
      (inner.foldl (fun docs doc => placeAt docs (offsetOf doc docs.length) (document columns doc))
        placed).length = inner.foldl (fun n doc => max n (offsetOf doc n + 1)) placed.length := by
    induction inner generalizing placed with
    | nil => rfl
    | cons doc inner ih => rw [List.foldl_cons, List.foldl_cons, ih, length_placeAt]
  unfold documents at h
  split at h
  next => cases h
  next =>
      cases h
      exact hfold inner []

/-- Whether a row of a response has a list of nested documents that is longer than there can
be. -/
def Overruns (p : HitsPlan) (response : Json) : Prop :=
  ∃ found, rows p response = .ok found ∧ ∃ row ∈ found, ∃ s ∈ p.selects,
    ∃ path columns, s.pull = .documents path columns
      ∧ capacity < reach (innerHits row.hit path)

theorem isTooLong_iff {row : HitRow} {pull : HitPull} :
    isTooLong row pull = true ↔ ∃ path columns, pull = .documents path columns
      ∧ capacity < reach (innerHits row.hit path) := by
  cases pull with
  | documents path columns => simp [isTooLong]
  | _ => simp [isTooLong]

theorem format_eq_error {q : Query} {p : HitsPlan} {response : Json}
    (h : response.get? "hits" = none) :
    format q p response = .error (.formatting response.compact "response has no hits") := by
  unfold format rows
  rw [h]
  rfl

theorem rows_total {p : HitsPlan} {response : Json} (h : response.get? "hits" ≠ none) :
    ∃ found, rows p response = .ok found := by
  obtain ⟨hits, hhits⟩ := Option.ne_none_iff_exists'.mp h
  unfold rows
  rw [hhits]
  cases p.deep? with
  | none => exact ⟨_, rfl⟩
  | some path => exact ⟨_, rfl⟩

theorem not_overruns {p : HitsPlan} {response : Json} (h : response.get? "hits" = none) :
    ¬ Overruns p response := by
  rintro ⟨found, hfound, -⟩
  unfold rows at hfound
  rw [h] at hfound
  cases hfound

/-- **The rows of a response with hits can be told**, unless one of them is too long. -/
theorem format_of_hits {q : Query} {p : HitsPlan} {response : Json}
    (h : response.get? "hits" ≠ none) :
    (Overruns p response ∧ format q p response = .error .tooLong)
      ∨ (¬ Overruns p response ∧ ∃ f, format q p response = .ok f) := by
  obtain ⟨found, hfound⟩ := rows_total h
  have hiff : Overruns p response
      ↔ (found.any fun row => p.selects.any fun s => isTooLong row s.pull) = true := by
    simp only [List.any_eq_true, isTooLong_iff]
    constructor
    · rintro ⟨found', hfound', hrow⟩
      rw [hfound] at hfound'
      cases hfound'
      exact hrow
    · exact fun hrow => ⟨found, hfound, hrow⟩
  unfold format
  rw [hfound, Results.ok_bind]
  by_cases hover : Overruns p response
  · exact Or.inl ⟨hover, if_pos (hiff.mp hover)⟩
  · refine Or.inr ⟨hover, ?_⟩
    rw [if_neg fun hany => hover (hiff.mpr hany)]
    exact ⟨_, rfl⟩

end Hits

/-! ## Aggregations -/

namespace Grouping

/-- What decoding relies on with some decoders: settled domains, rows in which each decoder finds
its own steps, and places inside of the cube, each with a cell. -/
structure Decodable (root : Json) (ds : List Decoder) (rows : List Row) : Prop where
  frozen : ∀ d ∈ ds, d.kind.isFrozen = true
  own : ∀ d ∈ ds, ∀ row ∈ Response.walk (levels ds) root,
    ∃ parts, d.ownParts row.parts = .ok parts ∧ parts.length = d.levels
  inside : ∀ row ∈ rows, Matrix.inside (ds.map Decoder.size) row.coord = true
  place : ∀ row ∈ rows,
    Matrix.place (ds.map Decoder.size) row.coord < Matrix.volume (ds.map Decoder.size)

/-- Every response can be counted and its rows placed. -/
theorem decodable (root : Json) (ds : List Decoder) :
    ∃ counted rows, countAll root ds = .ok counted ∧ Grouping.rows root counted = .ok rows
      ∧ Decodable root counted rows := by
  obtain ⟨hcount, hrows, hfrozen, hwithin⟩ := count_and_place root ds
  refine ⟨_, _, hcount, hrows, hfrozen, ?_, ?_, ?_⟩
  · intro d hd row hrow
    rw [levels_counted] at hrow
    have hwide := (hwithin row hrow).of_mem hd
    exact ⟨_, Decoder.ownParts_eq hwide, Decoder.length_own hwide⟩
  · intro row hrow
    exact inside_of_mem_rows hrow
  · intro row hrow
    exact Matrix.place_lt_volume (inside_of_mem_rows hrow)

end Grouping

/-! ## Compiled queries -/

/-- Whether the result of a response needs a longer list than there can be. -/
def Compiled.Overruns (q : Query) (response : Json) : Compiled → Prop
  | grouping p => ∃ ds, Grouping.countAll (Response.root response) p.decoders = .ok ds
      ∧ Grouping.Overruns q { p with decoders := ds }
  | hits p => Hits.Overruns p response

/-- A response is counted, its rows are placed, and then they are formatted. -/
theorem Compiled.decode_eq (q : Query) (p : GroupingPlan) {response : Json} {ds : List Decoder}
    {rows : List Row} (hds : Grouping.countAll (Response.root response) p.decoders = .ok ds)
    (hrows : Grouping.rows (Response.root response) ds = .ok rows) :
    (grouping p).decode q response = Grouping.format q { p with decoders := ds } rows := by
  unfold Compiled.decode
  simp only
  rw [hds, Results.ok_bind, hrows, Results.ok_bind]

/-- An aggregation is always told, unless its cube is too large. -/
theorem Compiled.decode_grouping (q : Query) (p : GroupingPlan) (response : Json) :
    ((grouping p).Overruns q response ∧ (grouping p).decode q response = .error .tooLong)
      ∨ (¬ (grouping p).Overruns q response ∧ ∃ f, (grouping p).decode q response = .ok f) := by
  obtain ⟨ds, rows, hds, hrows, hdecodable⟩ :=
    Grouping.decodable (Response.root response) p.decoders
  have hdecode := decode_eq q p hds hrows
  by_cases hover : Grouping.Overruns q { p with decoders := ds }
  · exact Or.inl ⟨⟨ds, hds, hover⟩, hdecode.trans (Grouping.format_tooLong hover)⟩
  · refine Or.inr ⟨?_, ?_⟩
    · rintro ⟨ds', hds', hover'⟩
      rw [hds] at hds'
      cases hds'
      exact hover hover'
    · rw [hdecode]
      exact Grouping.format_total hover hdecodable.inside

/-- **Decoding is total but for results that are too long**: otherwise it fails exactly on a
projection of a response without hits, and says so. With aggregations every response can be
counted, its rows be placed, and every place is that of a cell; with a projection every select has
its column. -/
theorem decode_outcome (q : Query) (c : Compiled) (response : Json) :
    (c.decode q response = .error .tooLong ↔ c.Overruns q response)
      ∧ ((∃ e, c.decode q response = .error e ∧ e ≠ .tooLong)
        ↔ (∃ p, c = .hits p) ∧ response.get? "hits" = none)
      ∧ (∀ e, c.decode q response = .error e →
        e = .tooLong ∨ e = .formatting response.compact "response has no hits")
      ∧ (∀ p, c = .grouping p → ∃ ds rows,
        Grouping.countAll (Response.root response) p.decoders = .ok ds
          ∧ Grouping.rows (Response.root response) ds = .ok rows
          ∧ Grouping.Decodable (Response.root response) ds rows)
      ∧ (∀ p, c = .hits p → ∀ s ∈ p.selects, s.put.index < Hits.tableWidth p) := by
  have grouping (p : GroupingPlan) : ∃ ds rows,
      Grouping.countAll (Response.root response) p.decoders = .ok ds
        ∧ Grouping.rows (Response.root response) ds = .ok rows
        ∧ Grouping.Decodable (Response.root response) ds rows :=
    Grouping.decodable (Response.root response) p.decoders
  -- an aggregation fails for its cube only, a projection also without hits
  cases c with
  | grouping p =>
      rcases Compiled.decode_grouping q p response with ⟨hover, hdecode⟩ | ⟨hover, f, hdecode⟩
      · rw [hdecode]
        refine ⟨by simp [hover], by simp, ?_, ?_, by simp⟩
        · intro e he
          exact Or.inl (Except.error.inj he).symm
        · rintro p' ⟨⟩
          exact grouping p
      · rw [hdecode]
        refine ⟨by simp [hover], by simp, by simp, ?_, by simp⟩
        rintro p' ⟨⟩
        exact grouping p
  | hits p =>
      have hindex : ∀ p', Compiled.hits p = .hits p' → ∀ s ∈ p'.selects,
          s.put.index < Hits.tableWidth p' := by
        rintro p' ⟨⟩ s hs
        exact Hits.index_lt_tableWidth hs
      by_cases hnone : response.get? "hits" = none
      · have hdecode : (Compiled.hits p).decode q response
            = .error (.formatting response.compact "response has no hits") :=
          Hits.format_eq_error hnone
        have hover : ¬ (Compiled.hits p).Overruns q response := Hits.not_overruns hnone
        rw [hdecode]
        refine ⟨by simp [hover], by simp [hnone], ?_, by simp, hindex⟩
        intro e he
        exact Or.inr (Except.error.inj he).symm
      · rcases Hits.format_of_hits (q := q) (p := p) hnone with
          ⟨hover, hdecode⟩ | ⟨hover, f, hdecode⟩
        · have hover : (Compiled.hits p).Overruns q response := hover
          have hdecode : (Compiled.hits p).decode q response = .error .tooLong := hdecode
          rw [hdecode]
          refine ⟨by simp [hover], by simp [hnone], ?_, by simp, hindex⟩
          intro e he
          exact Or.inl (Except.error.inj he).symm
        · have hover : ¬ (Compiled.hits p).Overruns q response := hover
          have hdecode : (Compiled.hits p).decode q response = .ok f := hdecode
          rw [hdecode]
          exact ⟨by simp [hover], by simp [hnone], by simp, by simp, hindex⟩

/-! ## A document that lies too far out -/

/-- Nested documents `c` with a number `x`. -/
def nestedCatalog : Catalog where
  table := "t"
  columns :=
    [{ name := "c", stored := "c", mapping := "", type := .nested, nestedPath := ["c", "."] },
      { name := "c.x", stored := "c.x", mapping := "", type := .number,
        nestedPath := ["c", "."] }]
  queryPath := ["."]

def nestedQuery : Query where
  table := "t"
  selects :=
    [{ name := "c.x", value := .var "c.x", aggregate := .plain, percentile := none,
       default := .null }]
  shape := .single
  edges := []
  groupby := []
  condition := .literal (.bool true)
  sort := []
  limit := none
  format := .list
  save := false
  written := none

def nestedPlan : HitsPlan where
  queryDepth := Path.root
  limit := 10
  fetched := { stored := [], inner := [], nested := [("c", ["c.x"])], scripts := [] }
  conditions := []
  sort := []
  selects :=
    [{ name := "c.x", put := { name := "c.x", index := 0, child := "." },
       pull := .documents "c" [("c.x", "x")] }]

/-- A hit whose one nested document says that it lies as far out as a word can tell. -/
def farHit : Json :=
  let doc : Json :=
    .obj [("_nested", .obj [("field", .str "c"), ("offset", .nat 18446744073709551615)])]
  .obj [("inner_hits", .obj [("c", .obj [("hits", .obj [("hits", .arr [doc])])])])]

def farResponse : Json := .obj [("hits", .obj [("hits", .arr [farHit])])]

/-- **A response with hits need not be told**: the list of its nested documents would be too
long. -/
theorem decode_far :
    Hits.compile nestedCatalog .default nestedQuery = .ok nestedPlan
      ∧ farResponse.get? "hits" ≠ none
      ∧ (Compiled.hits nestedPlan).decode nestedQuery farResponse = .error .tooLong := by
  have hhits : farResponse.get? "hits" = some (.obj [("hits", .arr [farHit])]) := rfl
  have hne : farResponse.get? "hits" ≠ none := by
    rw [hhits]
    exact Option.some_ne_none _
  have hreach : Hits.reach (Hits.innerHits farHit "c") = 18446744073709551616 := rfl
  have hover : Hits.Overruns nestedPlan farResponse := by
    refine ⟨[{ hit := farHit, inner := none }], rfl, _, List.mem_cons_self, _,
      List.mem_cons_self, "c", _, rfl, ?_⟩
    rw [hreach, capacity]
    decide
  rcases Hits.format_of_hits (q := nestedQuery) (p := nestedPlan) hne with ⟨-, h⟩ | ⟨h, -⟩
  · exact ⟨by cbv, hne, h⟩
  · exact absurd hover h

end Tabula
