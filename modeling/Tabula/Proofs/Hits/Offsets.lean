import Tabula.Proofs.Run.Decoding

/-!
# Nested documents at their offsets

Each nested document that comes with a hit says at which offset it stood among its siblings. The
list of the documents grows as it is filled: one that lies beyond the end comes after as many nulls
as it takes, and one that lies before it replaces a null (`AtOffsets.place`). When no two documents
name one offset, what the list holds in the end follows from the offsets alone
(`AtOffsets.unique`), so the order of the documents makes no difference. It can be told unless an
offset lies further out than a list can reach (`documents_at_offsets`).
-/

set_option autoImplicit false

namespace Tabula.Hits

def offset? (doc : Json) : Option Nat := ((doc.getD "_nested").get? "offset").bind Json.asNat?

theorem offsetOf_eq (doc : Json) (next : Nat) : offsetOf doc next = (offset? doc).getD next := rfl

/-- Whether documents carry offsets, each one its own. -/
structure OwnOffsets (inner : List Json) : Prop where
  carried : ∀ doc ∈ inner, (offset? doc).isSome = true
  nodup : (inner.map offset?).Nodup

/-- Whether a list ends with the last of some nested documents, and holds each of them at its offset
and null everywhere else. -/
structure AtOffsets (columns : List (String × String)) (inner docs : List Json) : Prop where
  placed : ∀ doc ∈ inner, ∀ i, offset? doc = some i → docs[i]? = some (document columns doc)
  between : ∀ i < docs.length, (∀ doc ∈ inner, offset? doc ≠ some i) → docs[i]? = some .null
  last : docs ≠ [] → ∃ doc ∈ inner, offset? doc = some (docs.length - 1)

variable {columns : List (String × String)} {inner docs : List Json}

/-! ## Placing one document -/

theorem getElem?_placeAt (docs : List Json) (i j : Nat) (v : Json) :
    (placeAt docs i v)[j]? = if j = i then some v else if j < docs.length then docs[j]?
      else if j < i then some .null else none := by
  unfold placeAt
  split
  next hi => grind
  next hi => grind

/-- A document at an offset of its own is placed without disturbing the others. -/
theorem AtOffsets.place (h : AtOffsets columns inner docs) {doc : Json} {i : Nat}
    (hi : offset? doc = some i) (hnew : ∀ other ∈ inner, offset? other ≠ some i) :
    AtOffsets columns (inner ++ [doc]) (placeAt docs i (document columns doc)) where
  placed := by
    intro other hother j hj
    rw [getElem?_placeAt]
    rcases List.mem_append.mp hother with hold | hlast
    · -- an earlier document stays where it is, since its offset is another one
      have hne : j ≠ i := by
        rintro rfl
        exact hnew other hold hj
      have hget := h.placed other hold j hj
      have hlt : j < docs.length := (List.getElem?_eq_some_iff.mp hget).1
      rw [if_neg hne, if_pos hlt, hget]
    · obtain rfl := List.mem_singleton.mp hlast
      rw [hi] at hj
      rw [if_pos (Option.some.inj hj).symm]
  between := by
    intro j hj hnone
    rw [length_placeAt] at hj
    have hne : j ≠ i := by
      rintro rfl
      exact hnone doc (by simp) hi
    rw [getElem?_placeAt, if_neg hne]
    split
    next hlt => exact h.between j hlt fun other hother => hnone other (by simp [hother])
    next hlt =>
        -- what is added before the new document are nulls
        rw [if_pos (by omega)]
  last := by
    intro _
    rw [length_placeAt]
    by_cases hlt : docs.length ≤ i
    · exact ⟨doc, by simp, by rw [hi]; congr 1; omega⟩
    · obtain ⟨other, hother, hlast⟩ := h.last (by rintro rfl; simp at hlt)
      exact ⟨other, by simp [hother], by rw [hlast]; congr 1; omega⟩

/-! ## Placing all of them -/

/-- The documents that follow are placed one after another. -/
theorem AtOffsets.foldl {rest : List Json} (h : AtOffsets columns inner docs)
    (hown : OwnOffsets (inner ++ rest)) :
    AtOffsets columns (inner ++ rest) (rest.foldl (fun docs doc =>
      placeAt docs (offsetOf doc docs.length) (document columns doc)) docs) := by
  induction rest generalizing inner docs with
  | nil => rwa [List.append_nil]
  | cons doc rest ih =>
      obtain ⟨i, hi⟩ := Option.isSome_iff_exists.mp (hown.carried doc (by simp))
      have hnew : ∀ other ∈ inner, offset? other ≠ some i := by
        intro other hother heq
        have hnodup := hown.nodup
        rw [List.map_append, List.nodup_append] at hnodup
        exact hnodup.2.2 _ (List.mem_map_of_mem hother) _ List.mem_cons_self (heq.trans hi.symm)
      have hplaced := h.place hi hnew
      rw [List.foldl_cons, offsetOf_eq, hi, Option.getD_some]
      rw [List.append_cons] at hown ⊢
      exact ih hplaced hown

/-- **What a list holds at the offsets of some documents does not depend on their order.** -/
theorem AtOffsets.unique {inner' docs' : List Json} (h : AtOffsets columns inner docs)
    (h' : AtOffsets columns inner' docs') (hsame : ∀ doc, doc ∈ inner ↔ doc ∈ inner') :
    docs = docs' := by
  -- the last document lies in the other list as well
  have hle {inner inner' docs docs' : List Json} (h : AtOffsets columns inner docs)
      (h' : AtOffsets columns inner' docs') (hsub : ∀ doc ∈ inner, doc ∈ inner') :
      docs.length ≤ docs'.length := by
    by_cases hnil : docs = []
    · simp [hnil]
    · obtain ⟨doc, hdoc, hlast⟩ := h.last hnil
      have hget := h'.placed doc (hsub doc hdoc) _ hlast
      have hlt := (List.getElem?_eq_some_iff.mp hget).1
      omega
  have hlength : docs.length = docs'.length :=
    Nat.le_antisymm (hle h h' fun doc => (hsame doc).mp) (hle h' h fun doc => (hsame doc).mpr)
  refine List.ext_getElem? fun i => ?_
  by_cases hi : i < docs.length
  · by_cases hsome : ∃ doc ∈ inner, offset? doc = some i
    · obtain ⟨doc, hdoc, hoffset⟩ := hsome
      rw [h.placed doc hdoc i hoffset, h'.placed doc ((hsame doc).mp hdoc) i hoffset]
    · have hnone (doc : Json) (hdoc : doc ∈ inner) : offset? doc ≠ some i :=
        fun hoffset => hsome ⟨doc, hdoc, hoffset⟩
      rw [h.between i hi hnone, h'.between i (hlength ▸ hi)]
      exact fun doc hdoc => hnone doc ((hsame doc).mpr hdoc)
  · rw [List.getElem?_eq_none (by omega), List.getElem?_eq_none (by omega)]

theorem documents_eq (columns : List (String × String)) (h : OwnOffsets inner)
    (hne : inner ≠ []) :
    ∃ docs, documents inner columns = .arr docs ∧ docs ≠ [] ∧ AtOffsets columns inner docs := by
  have hnil : AtOffsets columns [] [] := ⟨by simp, by simp, by simp⟩
  have hplaced := hnil.foldl h
  rw [List.nil_append] at hplaced
  obtain ⟨doc, hdoc⟩ := List.exists_mem_of_ne_nil _ hne
  obtain ⟨i, hi⟩ := Option.isSome_iff_exists.mp (h.carried doc hdoc)
  have hget := hplaced.placed doc hdoc i hi
  unfold documents
  split
  next heq =>
      rw [heq] at hget
      cases hget
  next docs hdocs => exact ⟨_, rfl, hdocs, hplaced⟩

/-- A document is put together from its own fields alone. -/
theorem document_congr {doc doc' : Json} (h : doc.getD "fields" = doc'.getD "fields") :
    document columns doc = document columns doc' := by
  unfold document columnOf
  rw [h]

/-! ## The documents of a hit -/

/-- An order of the documents is as good as any other. -/
theorem OwnOffsets.perm {inner' : List Json} (h : OwnOffsets inner) (hperm : inner'.Perm inner) :
    OwnOffsets inner' where
  carried doc hdoc := h.carried doc (hperm.mem_iff.mp hdoc)
  nodup := (hperm.map offset?).nodup_iff.mpr h.nodup

theorem documents_perm {inner' : List Json} (h : OwnOffsets inner) (hperm : inner'.Perm inner) :
    documents inner' columns = documents inner columns := by
  by_cases hnil : inner = []
  · subst hnil
    rw [hperm.eq_nil]
  · have hnil' : inner' ≠ [] := by
      rintro rfl
      exact hnil hperm.nil_eq.symm
    obtain ⟨docs, hdocs, -, hplaced⟩ := documents_eq columns h hnil
    obtain ⟨docs', hdocs', -, hplaced'⟩ := documents_eq columns (h.perm hperm) hnil'
    rw [hdocs, hdocs', hplaced'.unique hplaced fun doc => hperm.mem_iff]

/-- The list reaches to the last of the documents. -/
theorem AtOffsets.isGreatest (h : AtOffsets columns inner docs) (hne : docs ≠ []) :
    IsGreatest {i | ∃ doc ∈ inner, offset? doc = some i} (docs.length - 1) := by
  refine ⟨h.last hne, ?_⟩
  rintro i ⟨doc, hdoc, hi⟩
  have hlt := (List.getElem?_eq_some_iff.mp (h.placed doc hdoc i hi)).1
  omega

/-- The list of nested documents can be told exactly when every offset is one of a list. -/
theorem isTooLong_documents {row : HitRow} {path : String} (columns : List (String × String))
    (h : OwnOffsets (innerHits row.hit path)) :
    isTooLong row (.documents path columns) = false
      ↔ ∀ doc ∈ innerHits row.hit path, ∀ i, offset? doc = some i → i < capacity := by
  simp only [isTooLong, decide_eq_false_iff_not, Nat.not_lt]
  by_cases hnil : innerHits row.hit path = []
  · simp [hnil, reach]
  · obtain ⟨docs, hdocs, hne, hplaced⟩ := documents_eq columns h hnil
    have hlast := hplaced.isGreatest hne
    have hpos := List.length_pos_of_ne_nil hne
    rw [← length_documents hdocs]
    constructor
    · intro hle doc hdoc i hi
      have hmax := hlast.2 ⟨doc, hdoc, hi⟩
      omega
    · intro hall
      obtain ⟨doc, hdoc, hi⟩ := hlast.1
      have hlt := hall doc hdoc _ hi
      omega

/-- **Nested documents are placed by their offsets**, whatever their order. When each carries an
offset of its own, their list ends with the last of them, holds each at its offset and null
everywhere else, and is the same for every order of the documents. It can be told exactly when no
offset is beyond what a list can hold. -/
theorem documents_at_offsets {row : HitRow} {path : String} (columns : List (String × String))
    (h : OwnOffsets (innerHits row.hit path)) :
    (isTooLong row (.documents path columns) = false
        ↔ ∀ doc ∈ innerHits row.hit path, ∀ i, offset? doc = some i → i < capacity)
      ∧ (innerHits row.hit path = [] → read row (.documents path columns) = .null)
      ∧ (innerHits row.hit path ≠ [] → ∃ docs last, read row (.documents path columns) = .arr docs
        ∧ IsGreatest {i | ∃ doc ∈ innerHits row.hit path, offset? doc = some i} last
        ∧ docs.length = last + 1
        ∧ AtOffsets columns (innerHits row.hit path) docs)
      ∧ (∀ row' : HitRow, (innerHits row'.hit path).Perm (innerHits row.hit path) →
        read row' (.documents path columns) = read row (.documents path columns))
      ∧ ∀ doc doc' : Json, doc.getD "fields" = doc'.getD "fields" →
        document columns doc = document columns doc' := by
  refine ⟨isTooLong_documents columns h, ?_, ?_, ?_, fun doc doc' => document_congr⟩
  · intro hnil
    simp only [read, hnil]
    rfl
  · intro hne
    obtain ⟨docs, hdocs, hnil, hplaced⟩ := documents_eq columns h hne
    have hpos := List.length_pos_of_ne_nil hnil
    exact ⟨docs, docs.length - 1, hdocs, hplaced.isGreatest hnil, by omega, hplaced⟩
  · intro row' hperm
    exact documents_perm h hperm

def nestedAt (offset x : Nat) : Json :=
  .obj [("_nested", .obj [("field", .str "c"), ("offset", .nat offset)]),
    ("fields", .obj [("c.x", .arr [.nat x])])]

def rowWith (inner : List Json) : HitRow where
  hit := .obj [("fields", .obj [("a", .arr [.nat 1])]),
    ("inner_hits", .obj [("c", .obj [("hits", .obj [("hits", .arr inner)])])])]
  inner := none

/-- The first document is placed before the second although it comes after it, and a null fills
the hole between them. -/
theorem documents_at_offsets_swapped :
    OwnOffsets (innerHits (rowWith [nestedAt 2 7, nestedAt 0 5]).hit "c")
      ∧ isTooLong (rowWith [nestedAt 2 7, nestedAt 0 5]) (.documents "c" [("c.x", "x")]) = false
      ∧ (∃ docs last, read (rowWith [nestedAt 2 7, nestedAt 0 5])
          (.documents "c" [("c.x", "x")]) = .arr docs
        ∧ IsGreatest {i | ∃ doc ∈ [nestedAt 2 7, nestedAt 0 5], offset? doc = some i} last
        ∧ docs.length = last + 1)
      ∧ read (rowWith [nestedAt 0 5, nestedAt 2 7]) (.documents "c" [("c.x", "x")])
        = .arr [.obj [("x", .nat 5)], .null, .obj [("x", .nat 7)]]
      ∧ read (rowWith [nestedAt 0 5, nestedAt 2 7]) (.documents "c" [("c.x", "x")])
        = read (rowWith [nestedAt 2 7, nestedAt 0 5]) (.documents "c" [("c.x", "x")]) := by
  have hinner : innerHits (rowWith [nestedAt 2 7, nestedAt 0 5]).hit "c"
      = [nestedAt 2 7, nestedAt 0 5] := rfl
  have hown : OwnOffsets (innerHits (rowWith [nestedAt 2 7, nestedAt 0 5]).hit "c") := by
    rw [hinner]
    exact ⟨by decide, by decide⟩
  obtain ⟨htold, -, hplaced, hperm, -⟩ := documents_at_offsets [("c.x", "x")] hown
  obtain ⟨docs, last, hread, hgreatest, hlength, -⟩ := hplaced (by simp [hinner])
  refine ⟨hown, htold.mpr ?_, ⟨docs, last, hread, hinner ▸ hgreatest, hlength⟩, rfl,
    hperm _ (List.Perm.swap _ _ _)⟩
  rw [hinner]
  decide

/-! ## A document beyond every list -/

/-- Nested documents `c` with a number `x`, and a number `a`. -/
def shadowedCatalog : Catalog :=
  { nestedCatalog with
    columns := nestedCatalog.columns ++
      [{ name := "a", stored := "a", mapping := "", type := .number, nestedPath := ["."] }] }

/-- The numbers of the nested documents, shadowed by the number of the document. -/
def shadowedQuery : Query :=
  { nestedQuery with
    selects :=
      [{ name := "x", value := .var "c.x", aggregate := .plain, percentile := none,
         default := .null },
        { name := "x", value := .var "a", aggregate := .plain, percentile := none,
          default := .null }]
    shape := .list }

def shadowedPlan : HitsPlan where
  queryDepth := Path.root
  limit := 10
  fetched := { stored := ["a"], inner := [], nested := [("c", ["c.x"])], scripts := [] }
  conditions := []
  sort := []
  selects :=
    [{ name := "x", put := { name := "x", index := 0, child := "." },
       pull := .documents "c" [("c.x", "x")] },
      { name := "x", put := { name := "x", index := 1, child := "." },
        pull := .column "a" false }]

/-- A response with one hit, whose nested document lies at an offset. -/
def shadowedResponse (offset : Nat) : Json :=
  .obj [("hits", .obj [("hits", .arr [(rowWith [nestedAt offset 5]).hit])])]

/-- **A document can lie beyond every list**, even where its list makes no difference. -/
theorem decode_shadowed :
    Hits.compile shadowedCatalog .default shadowedQuery = .ok shadowedPlan
      ∧ OwnOffsets (innerHits (rowWith [nestedAt 18446744073709551615 5]).hit "c")
      ∧ (Compiled.hits shadowedPlan).decode shadowedQuery (shadowedResponse 2)
        = .ok (.list [.obj [("x", .nat 1)]])
      ∧ (Compiled.hits shadowedPlan).decode shadowedQuery (shadowedResponse 18446744073709551615)
        = .error .tooLong := by
  refine ⟨by cbv, ⟨by decide, by decide⟩, rfl, ?_⟩
  have hreach : reach (innerHits (rowWith [nestedAt 18446744073709551615 5]).hit "c")
      = 18446744073709551616 := rfl
  have hover : Overruns shadowedPlan (shadowedResponse 18446744073709551615) := by
    refine ⟨[rowWith [nestedAt 18446744073709551615 5]], rfl, _, List.mem_cons_self, _,
      List.mem_cons_self, "c", _, rfl, ?_⟩
    rw [hreach, capacity]
    decide
  have hne : (shadowedResponse 18446744073709551615).get? "hits" ≠ none := Option.some_ne_none _
  rcases format_of_hits (q := shadowedQuery) (p := shadowedPlan) hne with ⟨-, h⟩ | ⟨h, -⟩
  · exact h
  · exact absurd hover h

end Tabula.Hits
