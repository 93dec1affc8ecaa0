import Tabula.Proofs.Grouping.Pieces
import Tabula.Proofs.Grouping.Reordering

/-!
# The order of the decoders

The decoders of a query come in the order in which rows are sorted: first the edges that sort
terms name, each with the direction of its first term, then the other edges as they were written.
A repeated term adds no edge. So an order of values by the edges that were added is an order by all
terms (`addSorted_ordered`), and together the edges are those of the query (`sorted_decoders`).
-/

set_option autoImplicit false

namespace Tabula.Grouping

/-! ## Orders of values -/

/-- Whether a value comes before another in a direction. What is missing comes last in both. -/
def Precedes (dir : Direction) (a b : Json) : Prop :=
  a ≠ .null ∧ (b = .null ∨ match dir with
    | .asc => compareValues a b = .lt
    | .desc => compareValues b a = .lt)

/-- Whether the values of the edges of a row come before those of another row by some keys, each
an edge and a direction: at the first key where they differ. -/
def Ordered (values values' : Nat → Json) : List (Nat × Direction) → Prop
  | [] => True
  | (i, dir) :: rest =>
      Precedes dir (values i) (values' i) ∨ (values i = values' i ∧ Ordered values values' rest)

/-- The edges that the sort terms of a query name, each with its direction. -/
def sortKeys (q : Query) : List (Nat × Direction) :=
  q.sort.filterMap fun term => (q.grouping.findIdx? (names term)).map fun i => (i, term.direction)

/-! ## Sort terms -/

variable {edges : List Edge}

/-- **Sort terms add edges**, each once and in its first direction, and so that values in the
order of the edges that were added are in the order of all terms. -/
theorem addSorted_ordered {terms : List SortTerm} {sorted all : List PlacedEdge}
    (h : terms.foldlM (addSorted edges) sorted = .ok all) :
    ∃ new keys, all = sorted ++ new ∧ List.Forall₂ (SortedBy edges) new keys
      ∧ (∀ key ∈ keys, ∃ term ∈ terms, edges.findIdx? (names term) = some key.1)
      ∧ ∀ values values' : Nat → Json,
        (∀ i ∈ sorted.map (·.index), values i = values' i) → Ordered values values' keys →
        Ordered values values' (terms.filterMap fun term =>
          (edges.findIdx? (names term)).map fun i => (i, term.direction)) := by
  -- on the terms: one that names an edge again finds equal values there
  induction terms generalizing sorted with
  | nil =>
      cases h
      exact ⟨[], [], by simp, .nil, by simp, fun _ _ _ _ => trivial⟩
  | cons term terms ih =>
      rw [List.foldlM_cons] at h
      obtain ⟨mid, hmid, hall⟩ := Results.bind_eq_ok.mp h
      obtain ⟨new, keys, rfl, hnew, hterms, hordered⟩ := ih hall
      have hterms : ∀ key ∈ keys, ∃ t ∈ term :: terms, edges.findIdx? (names t) = some key.1 := by
        intro key hkey
        obtain ⟨t, ht, hfind⟩ := hterms key hkey
        exact ⟨t, List.mem_cons_of_mem _ ht, hfind⟩
      obtain ⟨i, hi, ⟨hold, rfl⟩ | ⟨-, placed, rfl, hplaced⟩⟩ := addSorted_eq_ok hmid
      · refine ⟨new, keys, rfl, hnew, hterms, ?_⟩
        intro values values' hsame hkeys
        rw [List.filterMap_cons, hi]
        exact Or.inr ⟨hsame i hold, hordered values values' hsame hkeys⟩
      · refine ⟨placed :: new, (i, term.direction) :: keys, by simp, .cons hplaced hnew,
          List.forall_mem_cons.mpr ⟨⟨term, by simp, hi⟩, hterms⟩, ?_⟩
        intro values values' hsame hkeys
        rw [List.filterMap_cons, hi]
        rcases hkeys with hlt | ⟨heq, hkeys⟩
        · exact Or.inl hlt
        · refine Or.inr ⟨heq, hordered values values' ?_ hkeys⟩
          intro j hj
          rw [List.map_append, List.mem_append, List.map_singleton, List.mem_singleton,
            hplaced.1] at hj
          rcases hj with hj | rfl
          · exact hsame j hj
          · exact heq

/-! ## All edges -/

/-- Whether a placed edge is called like the edge of the query at its place. -/
def NamedLike (edges : List Edge) (placed : PlacedEdge) : Prop :=
  ∃ e, edges[placed.index]? = some e ∧ placed.edge.name = e.name

/-- **The edges are those of the query**, the ones of its sort terms in front. -/
theorem sortEdges_eq_ok {q : Query} (hq : q.format ≠ .cube) {all : List PlacedEdge}
    (h : sortEdges q = .ok all) :
    ∃ new keys rest, all = new ++ rest ∧ List.Forall₂ (SortedBy q.grouping) new keys
      ∧ (∀ key ∈ keys, ∃ term ∈ q.sort, q.grouping.findIdx? (names term) = some key.1)
      ∧ (∀ values values' : Nat → Json, Ordered values values' keys →
        Ordered values values' (sortKeys q))
      ∧ (all.map (·.index)).Perm (List.range q.grouping.length)
      ∧ ∀ placed ∈ all, NamedLike q.grouping placed := by
  have hreorders := reorders_of_sortEdges h
  obtain ⟨sorted, hsorted, h⟩ := Results.bind_eq_ok.mp h
  obtain ⟨new, keys, heq, hnew, hterms, hordered⟩ := addSorted_ordered hsorted
  obtain rfl : sorted = new := heq
  simp only [if_neg hq] at h
  cases h
  refine ⟨sorted, keys, _, rfl, hnew, hterms,
    fun values values' => hordered values values' (by simp), hreorders.perm, ?_⟩
  intro placed hp
  obtain ⟨e, he, hedge⟩ := hreorders.edge placed hp
  exact ⟨e, he, by rw [hedge, name_directed]⟩

/-! ## Decoders -/

variable {catalog : Catalog} {options : Options} {q : Query}

def DecoderOf (catalog : Catalog) (options : Options) (placed : PlacedEdge) (d : Decoder) : Prop :=
  d.edgeIndex = placed.index ∧ d.name = placed.edge.name
    ∧ ∃ limit, placed.edge.kind catalog options limit = .ok d.kind

theorem Pieces.decoders_of_sorted {pieces : Pieces} (h : ofQuery catalog options q = .ok pieces) :
    ∃ sorted, sortEdges q = .ok sorted
      ∧ List.Forall₂ (DecoderOf catalog options) sorted pieces.decoders := by
  obtain ⟨sorted, hsorted, hunplaced, -, -⟩ := ofQuery_eq_ok h
  refine ⟨sorted, hsorted, ?_⟩
  -- owning steps changes nothing that this is about
  have hview := pieces.map_decoders (fun d => (d.edgeIndex, d.name, d.kind)) fun _ _ => rfl
  have hall : List.Forall₂ (fun (placed : PlacedEdge) (v : Nat × String × EdgeKind) =>
      v.1 = placed.index ∧ v.2.1 = placed.edge.name
        ∧ ∃ limit, placed.edge.kind catalog options limit = .ok v.2.2)
      sorted (pieces.decoders.map fun d => (d.edgeIndex, d.name, d.kind)) := by
    rw [hview, List.forall₂_map_right_iff]
    refine (Results.mapM_eq_ok.mp hunplaced).imp fun placed d hd => ?_
    obtain ⟨depth, -, hd⟩ := Results.bind_eq_ok.mp hd
    obtain ⟨kind, hkind, hd⟩ := Results.bind_eq_ok.mp hd
    cases hd
    exact ⟨rfl, rfl, _, hkind⟩
  rw [List.forall₂_map_right_iff] at hall
  exact hall

def OneEach (ds : List Decoder) : Prop :=
  (ds.map (·.edgeIndex)).Perm (List.range ds.length)

/-- Whether a decoder is that of an edge that some sort term of a query names, in the direction of
a key. -/
def SortsBy (catalog : Catalog) (options : Options) (q : Query) (d : Decoder)
    (key : Nat × Direction) : Prop :=
  (∃ term ∈ q.sort, q.grouping.findIdx? (names term) = some key.1)
    ∧ ∃ placed, SortedBy q.grouping placed key ∧ DecoderOf catalog options placed d

/-- **The decoders are those of the edges**, one for each, called like it, and in front the
decoders of the edges that are sorted by. -/
theorem Pieces.sorted_decoders (hq : q.format ≠ .cube) {pieces : Pieces}
    (h : ofQuery catalog options q = .ok pieces) :
    (∃ keys, List.Forall₂ (SortsBy catalog options q) (pieces.decoders.take keys.length) keys
      ∧ ∀ values values' : Nat → Json, Ordered values values' keys →
        Ordered values values' (sortKeys q))
      ∧ OneEach pieces.decoders ∧ pieces.decoders.length = q.grouping.length
      ∧ ∀ d ∈ pieces.decoders, ∃ e, q.grouping[d.edgeIndex]? = some e ∧ d.name = e.name := by
  obtain ⟨sorted, hsorted, hall⟩ := decoders_of_sorted h
  obtain ⟨new, keys, rest, rfl, hnew, hterms, hordered, hperm, hnamed⟩ := sortEdges_eq_ok hq hsorted
  -- the edges that are sorted by come first, and so do their decoders
  have hfront :
      List.Forall₂ (DecoderOf catalog options) new (pieces.decoders.take keys.length) := by
    have htake := List.forall₂_take keys.length hall
    rwa [List.take_left' hnew.length_eq] at htake
  have hindices : pieces.decoders.map (·.edgeIndex) = (new ++ rest).map (·.index) := by
    refine List.forall₂_eq_eq_eq ▸ List.forall₂_map_left_iff.mpr (List.forall₂_map_right_iff.mpr ?_)
    exact hall.flip.imp fun _ _ hd => hd.1
  have hlength : pieces.decoders.length = q.grouping.length := by
    have := congrArg List.length hindices
    rwa [List.length_map, hperm.length_eq, List.length_range] at this
  refine ⟨⟨keys, ?_, hordered⟩, ?_, hlength, ?_⟩
  · have hlen : (pieces.decoders.take keys.length).length = keys.length :=
      hfront.length_eq.symm.trans hnew.length_eq
    refine List.forall₂_iff_get.mpr ⟨hlen, fun i hi hi' => ?_⟩
    have hi'' : i < new.length := hnew.length_eq ▸ hi'
    exact ⟨hterms _ (List.get_mem _ _), _, hnew.get hi'' hi', hfront.get hi'' hi⟩
  · rw [OneEach, hindices, hlength]
    exact hperm
  · intro d hd
    obtain ⟨i, hi, rfl⟩ := List.getElem_of_mem hd
    have hi' : i < (new ++ rest).length := hall.length_eq ▸ hi
    obtain ⟨hindex, hname, -⟩ := hall.get hi' hi
    obtain ⟨e, he, hedge⟩ := hnamed _ (List.get_mem (new ++ rest) ⟨i, hi'⟩)
    exact ⟨e, hindex ▸ he, hname.trans hedge⟩

end Tabula.Grouping
